import LiveEdit.Proofs.Session.Course
import LiveEdit.Proofs.Session.Token

/-! A request that is called off leaves no trace, and from some calls there is no way back. -/
namespace LiveEdit

/-- The token fired in time, or nobody waits for the request any more. -/
def Task.CalledOff (t : Task) : Prop := t.position = .ended .cancelled ∨ t.position = .dropped

theorem reply_of_leads_hasChanges {settings : SessionSettings} {scope : Option String}
    {s : SessionState} {f : SessionState → Conclusion}
    (h : (s.hasChangesPlan settings scope).Leads (.conclude f)) (s' : SessionState) :
    (f s').reply ≠ .cancelled := by
  cases s with
  | active session =>
    obtain ⟨fault | latest, h⟩ := Plan.leads_await.mp h
    · cases Plan.leads_conclude.mp h
      nofun
    · cases Plan.leads_conclude.mp h
      nofun
  | _ =>
    cases Plan.leads_reply.mp h
    nofun

namespace System

variable {origin sys sys' : System} {i : Nat} {t : Task} {m : Move} {c : Completion} {call : Call}
  {hs hs' : List Happening}

/-- Whoever comes to the end of its plan was not called off. -/
theorem reply_of_onCourse {f : SessionState → Conclusion}
    (h : sys.OnCourse t.request (.conclude f)) : (f sys.state).reply ≠ .cancelled := by
  obtain ⟨s, hleads, hs⟩ := h
  cases hg : t.request.takesGate with
  | true =>
    cases hs hg
    exact reply_of_leads hg hleads
  | false =>
    cases hr : t.request with
    | hasChanges scope =>
      rw [hr] at hleads
      exact reply_of_leads_hasChanges hleads sys.state
    | _ => simp [hr, Request.takesGate] at hg

/-- A reply that says so comes from a task that gave up, which writes and tells nothing. -/
theorem Run.traceless (h : origin.Run hs sys) (ho : origin.IsFresh) (hc : .replied i c ∈ hs)
    (hr : c.reply = .cancelled) : c.after = c.before ∧ c.effects = [] := by
  induction h with
  | nil => simp at hc
  | snoc h hm ih =>
    rcases List.mem_append.mp hc with hc | hc
    · exact ih hc
    · obtain ⟨t, ht, hreplies⟩ := replies_of_mem hm hc
      cases hreplies with
      | cancels => exact ⟨rfl, rfl⟩
      | concludes hcomes =>
        exact absurd hr (reply_of_onCourse (onCourse_of_comes (h.planned ho) ht hcomes))

/-- A run in which no reply comes with a trace leaves everything as it was. -/
theorem Run.unchanged (h : sys.Run hs sys')
    (hq : ∀ i c, .replied i c ∈ hs → c.after = c.before ∧ c.effects = []) :
    sys'.state = sys.state ∧ sys'.history = sys.history := by
  induction h with
  | nil => exact ⟨rfl, rfl⟩
  | @snoc hs u v m h hm ih =>
    obtain ⟨hstate, hhistory⟩ := ih fun i c hc => hq i c (List.mem_append_left _ hc)
    cases step_change hm with
    | concludes ht hc =>
      rw [hc.happenings_conclude ht] at hq
      obtain ⟨hs', he⟩ := hq _ _ (List.mem_append_right hs
        (List.mem_append_right _ (List.mem_singleton_self _)))
      refine ⟨hs'.trans hstate, ?_⟩
      exact (congrArg (u.history ++ ·) he).trans ((List.append_nil _).trans hhistory)
    | _ => exact ⟨hstate, hhistory⟩

/-- Once the call of a request that settles has started, the task can give up no more. -/
theorem settled_of_inCall {d : Discipline} {resume : Except Fault call.Answer → Plan}
    (h : sys.OnCourse t.request (.await d call resume)) (hr : t.request.settles = true)
    (ht : sys'.task? i = some { t with position := .inCall d call resume }) : sys'.Settled i := by
  have hg : t.request.takesGate = true := by
    cases hreq : t.request <;> simp_all [Request.settles, Request.takesGate]
  have hcall := h.awaiting hg
  have hd : d = .settled := by rw [hcall.discipline, if_pos hr]
  subst hd
  exact ⟨_, ht, .inr ⟨call, resume, rfl, hcall.concludes hr⟩⟩

/-- A task that can give up no more is not called off by its token. -/
theorem uncancelled_step (hm : sys.Step m sys') (hp : sys.Planned) (hs : sys.Settled i)
    (hn : sys.reply? i ≠ some .cancelled) : sys'.reply? i ≠ some .cancelled := by
  have moved {j : Nat} {p : Position} (h : j = i → p ≠ .ended .cancelled) :
      (sys.setPosition j p).reply? i ≠ some .cancelled := by
    obtain ⟨t, ht, -⟩ := hs
    by_cases hji : j = i
    · subst hji
      exact fun hr => h rfl ((reply?_eq_some_iff (task?_setPosition_self ht)).mp hr)
    · rwa [reply?, task?_setPosition_of_ne hji]
  cases step_change hm with
  | issues r fired =>
    obtain ⟨t, ht, -⟩ := hs
    rwa [reply?, task?_issue, if_neg (Nat.ne_of_lt (task?_lt ht))]
  | fires j =>
    obtain ⟨⟨r, fired, p⟩, ht, -⟩ := hs
    have ht' : ∃ b, (sys.fire j).task? i = some ⟨r, b, p⟩ := by
      by_cases hji : j = i
      · exact ⟨true, by simp [task?_fire, hji, ht]⟩
      · exact ⟨fired, by simp [task?_fire, hji, ht]⟩
    obtain ⟨b, ht'⟩ := ht'
    intro hr
    exact hn ((reply?_eq_some_iff ht).mpr ((reply?_eq_some_iff ht').mp hr))
  | stays => exact hn
  | drops => exact moved (p := .dropped) (by rintro - ⟨⟩)
  | joins => exact hn
  | cancels ht _ hq =>
    refine moved (p := .ended .cancelled) ?_
    rintro rfl
    exact absurd hq (hs.not_givesUp ht)
  | calls => exact moved (by rintro - ⟨⟩)
  | @concludes j t m f ht hc =>
    refine moved (p := .ended (f sys.state).reply) fun _ heq => ?_
    exact reply_of_onCourse (onCourse_of_comes hp ht hc) (Position.ended.inj heq)

/-- Once its call has started, a request that settles can give up no more, and never did. -/
theorem Run.settled (h : origin.Run hs sys) (ho : origin.IsFresh) (ht : sys.task? i = some t)
    (hr : t.request.settles = true) (hc : .called i call ∈ hs) :
    sys.Settled i ∧ sys.reply? i ≠ some .cancelled := by
  induction h generalizing t with
  | nil => simp at hc
  | @snoc hs u v m h hm ih =>
    rcases List.mem_append.mp hc with hc | hc
    · obtain ⟨t', ht', -⟩ := h.shows _ hc
      obtain ⟨t'', ht'', hgo⟩ := goesOn_step hm ht'
      cases ht.symm.trans ht''
      obtain ⟨hsettled, hn⟩ := ih ht' (hgo.request ▸ hr) hc
      exact ⟨settled_step hm hsettled, uncancelled_step hm (h.planned ho) hsettled hn⟩
    · obtain ⟨t', d, resume, ht', hcomes, rfl⟩ := called_of_mem hc hm
      have hin := task?_setPosition_self (p := .inCall d call resume) ht'
      cases ht.symm.trans hin
      have hcourse := onCourse_of_comes (h.planned ho) ht' hcomes
      refine ⟨settled_of_inCall hcourse hr hin, fun hreply => ?_⟩
      cases (reply?_eq_some_iff hin).mp hreply

/--
Whatever a run wrote or told came with the replies in its log. A request that is called off
brings none with a trace; if it settles by a call, the call was never started. Once that call has
started, the token does not matter: the run is one for either.
-/
theorem cancellation_is_atomic (h : origin.Run hs sys) (ho : origin.IsFresh)
    (h' : sys.Run hs' sys') (ht : sys'.task? i = some t) :
    origin.Accounted (hs ++ hs') sys' ∧
    (t.CalledOff →
      (∀ c, .replied i c ∈ hs ++ hs' →
        t.position = .ended .cancelled ∧ c.reply = .cancelled ∧ c.after = c.before ∧
          c.effects = []) ∧
      ((∀ j c, .replied j c ∈ hs' → j = i) →
        sys'.state = sys.state ∧ sys'.history = sys.history)) ∧
    (t.position = .ended .cancelled → t.request.settles = true →
      ∀ call, .called i call ∉ hs ++ hs') ∧
    (t.request.settles = true → ∀ call, .called i call ∈ hs →
      ∀ fired, (sys.withToken i fired).Run hs' (sys'.withToken i fired)) := by
  have hall := h.trans h'
  have called (hoff : t.CalledOff) (c : Completion) (hc : .replied i c ∈ hs ++ hs') :
      t.position = .ended .cancelled ∧ c.reply = .cancelled ∧ c.after = c.before ∧
        c.effects = [] := by
    obtain ⟨u, hu, -, hend⟩ := hall.shows _ hc
    cases ht.symm.trans hu
    rcases hoff with hoff | hoff
    · have hr : c.reply = .cancelled := Position.ended.inj (hend.symm.trans hoff)
      exact ⟨hoff, hr, hall.traceless ho hc hr⟩
    · cases hend.symm.trans hoff
  refine ⟨hall.accounted, fun hoff => ⟨called hoff, fun hself => ?_⟩, ?_, ?_⟩
  · refine h'.unchanged fun j c hc => ?_
    cases hself j c hc
    exact (called hoff c (List.mem_append_right hs hc)).2.2
  · intro hend hr call hc
    obtain ⟨-, hn⟩ := hall.settled ho ht hr hc
    exact hn ((reply?_eq_some_iff ht).mpr hend)
  · intro hr call hc fired
    obtain ⟨u, hu, -⟩ := h.shows _ hc
    obtain ⟨u', hu', hgo⟩ := h'.goesOn hu
    cases ht.symm.trans hu'
    obtain ⟨hsettled, -⟩ := h.settled ho hu (hgo.request ▸ hr) hc
    exact (h'.withToken hsettled fired).1

theorem queued_is_cancelled_commit_is_not : ∃ hs hs' sys sys',
    System.Run { settings := {}, state := .active ⟨⟨1⟩, ⟨⟨0, 1⟩, 1, .empty⟩,
      some ⟨⟨0, 2⟩, 2, .empty⟩, .unknown⟩ } hs sys ∧ sys.Run hs' sys' ∧
      sys'.reply? 0 = some .done ∧ sys'.reply? 1 = some .cancelled ∧
      (sys.withToken 0 false).Run hs' (sys'.withToken 0 false) ∧
      ∀ c, .replied 1 c ∈ hs ++ hs' → c.after = c.before ∧ c.effects = [] := by
  let origin : System :=
    { settings := {}
      state := .active ⟨⟨1⟩, ⟨⟨0, 1⟩, 1, .empty⟩, some ⟨⟨0, 2⟩, 2, .empty⟩, .unknown⟩ }
  have fresh : origin.Run [] origin := .nil
  have issued := fresh.snoc (.issue .commit false)
  have admitted := issued.snoc (.approach (i := 0) rfl rfl rfl)
  have called := admitted.snoc (.arrive (i := 0) rfl (.turn rfl fun _ => rfl))
  let inCall : System :=
    ((origin.issue .commit false).approach 0).arrive 0 (origin.planOf .commit)
  let sys : System := (inCall.issue .getUpdates false).approach 1
  have queued : origin.Run _ sys :=
    (called.snoc (.issue .getUpdates false)).snoc (.approach (i := 1) rfl rfl rfl)
  have fired : sys.Run [] ((sys.fire 0).fire 1) := (Run.nil.snoc (.fire 0)).snoc (.fire 1)
  have cancelled := fired.snoc (.approach (i := 1) rfl rfl rfl)
  have committed := cancelled.snoc (.arrive (i := 0) rfl (.answer rfl (.ok ())))
  obtain ⟨-, -, -, hcommit⟩ :=
    cancellation_is_atomic (i := 0) queued ⟨rfl, rfl, rfl⟩ committed rfl
  obtain ⟨-, hqueued, -⟩ := cancellation_is_atomic (i := 1) queued ⟨rfl, rfl, rfl⟩ committed rfl
  refine ⟨_, _, _, _, queued, committed, rfl, rfl, ?_, fun c hc => ?_⟩
  · exact hcommit rfl (.commit ⟨1⟩) (.tail _ (.head _)) false
  · exact ((hqueued (.inl rfl)).1 c hc).2.2

end System

end LiveEdit
