import LiveEdit.Proofs.Session.Course
import LiveEdit.Proofs.Session.Log

/-! The log tells how each request came to its end, and where the snapshots in it come from. -/
namespace LiveEdit.System

variable {origin sys sys' : System} {i : Nat} {t : Task} {m : Move} {c : Completion}
  {hs earlier later : List Happening}

/-- The log tells how a request with the gate came to its end. -/
inductive Traced (hs : List Happening) (i : Nat) (c : Completion) : Prop
  | calledOff (hr : c.reply = .cancelled) (ha : c.after = c.before)
  | idle (hr : c.reply = c.request.offReply) (ha : c.after = c.before)
  | refused {v : Violation} (hv : c.request.violation? = some v) (hr : c.reply = .violation v)
      (hs : c.before.isDisabled = false) (hp : c.before.session?.bind (·.pending) = none)
      (ha : c.after = .disabled ⟨c.request.operation, (Fault.protocol v).message⟩)
  | failed {call : Call} {fault : Fault} (h : .answered i ⟨call, .error fault⟩ ∈ hs)
      (hr : c.reply = .done ∨ ∃ u, c.reply = .updates u)
      (ha : c.after = .disabled ⟨c.request.operation, fault.message⟩)
  | served {a : Answered} (h : .answered i a ∈ hs)
      (ha : Success c.before c.request a ⟨c.reply, c.after, c.effects⟩)

theorem Traced.mono {hs' : List Happening} (h : Traced hs i c) (hsub : hs ⊆ hs') :
    Traced hs' i c := by
  cases h with
  | calledOff hr ha => exact .calledOff hr ha
  | idle hr ha => exact .idle hr ha
  | refused hv hr hs hp ha => exact .refused hv hr hs hp ha
  | failed h hr ha => exact .failed (hsub h) hr ha
  | served h ha => exact .served (hsub h) ha

theorem traced_of_comes {f : SessionState → Conclusion} (hp : sys.Planned)
    (ht : sys.task? i = some t) (hc : sys.Comes i t m (.conclude f))
    (hg : t.request.takesGate = true) :
    Traced (m.opening sys) i
      ⟨t.request, (f sys.state).reply, sys.state, (f sys.state).state, (f sys.state).effects⟩ := by
  obtain ⟨rfl, -, hplan⟩ | ⟨d, call, resume, result, rfl, hin, hend⟩ := hc.inv
  · rcases conclude_of_turn hg hplan with ⟨reply, hidle, rfl⟩ | ⟨v, hv, hs, hpending, hd⟩
    · exact .idle (Request.offReply_of_idle hidle) rfl
    · cases hd
      exact .refused hv rfl hs hpending rfl
  · have hcall := (hp ht hin).awaiting hg
    have hreply := hcall.reply hend
    cases result with
    | ok x => exact .served List.mem_cons_self (hcall.success hend)
    | error fault => exact .failed List.mem_cons_self hreply (hcall.disables hend)

theorem Run.traced (h : origin.Run hs sys) (ho : origin.IsFresh) (hc : .replied i c ∈ hs)
    (hg : c.request.takesGate = true) : Traced hs i c := by
  induction h with
  | nil => simp at hc
  | @snoc hs u v m h hm ih =>
    rcases List.mem_append.mp hc with hc | hc
    · exact (ih hc).mono (List.subset_append_left _ _)
    · obtain ⟨t, ht, hreplies⟩ := replies_of_mem hm hc
      cases hreplies with
      | cancels => exact .calledOff rfl rfl
      | concludes hcomes =>
        refine (traced_of_comes (h.planned ho) ht hcomes hg).mono ?_
        rw [hcomes.happenings]
        exact fun e he => List.mem_append_right hs (List.mem_append_left _ he)

/-- Whoever has a call about a snapshot got the snapshot from the provider. -/
def Fetched (hs : List Happening) (sys : System) : Prop :=
  ∀ ⦃i t d call resume p⦄, sys.task? i = some t → t.position = .inCall d call resume →
    call.target? = some p → .answered i ⟨.currentSnapshot, .ok p⟩ ∈ hs

/-- The first call of a request is about no snapshot. -/
theorem target_of_plan {settings : SessionSettings} {r : Request} {s : SessionState}
    {d : Discipline} {call : Call} {resume : Except Fault call.Answer → Plan}
    (h : r.plan settings s = .await d call resume) : call.target? = none := by
  cases r with
  | commit =>
    simp only [Request.plan, SessionState.commitPlan] at h
    split at h
    · cases h
    · cases h
    · split at h <;> cases h
      rfl
  | discard =>
    simp only [Request.plan, SessionState.discardPlan] at h
    split at h
    · cases h
    · cases h
    · split at h <;> cases h
      rfl
  | _ =>
    cases s <;> cases h
    rfl

/-- A call becomes one about a snapshot only by the answer of the provider. -/
theorem answer_of_target {d : Discipline} {call : Call} {resume : Except Fault call.Answer → Plan}
    {p : Snapshot} (hp : sys.Planned) (ht : sys.task? i = some t)
    (hc : sys.Comes i t m (.await d call resume)) (htarget : call.target? = some p) :
    m = .answer i ⟨.currentSnapshot, .ok p⟩ := by
  obtain ⟨rfl, -, hplan⟩ | ⟨d', call', resume', result, rfl, hin, hend⟩ := hc.inv
  · cases (target_of_plan hplan).symm.trans htarget
  · cases hg : t.request.takesGate with
    | false =>
      obtain rfl := call_of_no_gate (onCourse_of_comes hp ht hc) hg
      cases htarget
    | true =>
      obtain ⟨-, latest, heq, htarget'⟩ := ((hp ht hin).awaiting hg).await hend
      cases heq
      cases htarget.symm.trans htarget'
      rfl

theorem fetched_step (hm : sys.Step m sys') (hp : sys.Planned) (h : Fetched hs sys) :
    Fetched (hs ++ m.happenings sys sys') sys' := by
  intro i t d call resume p ht hin htarget
  obtain ⟨u, hu, -, hsame | hc⟩ := inCall_step hm ht hin
  · exact List.mem_append_left _ (h hu (hsame.trans hin) htarget)
  · obtain rfl := answer_of_target hp hu hc htarget
    exact List.mem_append_right hs (List.mem_append_left _ List.mem_cons_self)

theorem Run.fetched (h : origin.Run hs sys) (ho : origin.IsFresh) : Fetched hs sys := by
  induction h with
  | nil =>
    intro i t d call resume p ht
    simp [task?, ho.tasks] at ht
  | snoc h hm ih => exact fetched_step hm (h.planned ho) ih

/-- A call that succeeds, other than for the current snapshot, ends its request at once. -/
theorem Run.served {call : Call} {x : call.Answer} (ho : origin.IsFresh)
    (h : origin.Run (earlier ++ .answered i ⟨call, .ok x⟩ :: later) sys)
    (hcall : call ≠ .currentSnapshot) :
    ∃ u c rest, origin.Run earlier u ∧ u.state = c.before ∧ c.before.isDisabled = false ∧
      later = .replied i c :: rest ∧
      Success c.before c.request ⟨call, .ok x⟩ ⟨c.reply, c.after, c.effects⟩ ∧
      ∀ p, call.target? = some p → .answered i ⟨.currentSnapshot, .ok p⟩ ∈ earlier := by
  obtain ⟨u, t, d, resume, rest, hrun, ht, hin, rfl, -⟩ := h.cut_answer
  have hg : t.request.takesGate = true := by
    cases hg : t.request.takesGate with
    | true => rfl
    | false => exact absurd (call_of_no_gate (hrun.planned ho ht hin) hg) hcall
  have hawaiting := (hrun.planned ho ht hin).awaiting hg
  cases hq : resume (.ok x) with
  | conclude f =>
    let c : Completion :=
      ⟨t.request, (f u.state).reply, u.state, (f u.state).state, (f u.state).effects⟩
    refine ⟨u, c, rest, hrun, rfl, hawaiting.isOn, ?_, hawaiting.success hq, ?_⟩
    · exact congrArg (· ++ rest) (arrival_conclude ht)
    · exact fun p => hrun.fetched ho ht hin
  | await d' call' resume' =>
    obtain ⟨-, latest, heq, -⟩ := hawaiting.await hq
    cases heq
    exact absurd rfl hcall

end LiveEdit.System
