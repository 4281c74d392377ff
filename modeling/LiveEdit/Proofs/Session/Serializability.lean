import LiveEdit.Proofs.Session.EventLog
import LiveEdit.Proofs.Session.Serial

/-! The gate makes every interleaving of requests harmless. -/
namespace LiveEdit

def Effect.disable? : Effect → Option (Operation × Fault)
  | .report operation fault => if operation = .hasChanges then none else some (operation, fault)
  | _ => none

/-- The faults that turned hot reload off, with the operations that met them. -/
def disablesOf (effects : List Effect) : List (Operation × Fault) :=
  effects.filterMap Effect.disable?

/-- What says nothing about the reports of checks is not changed by them. -/
theorem filterMap_ownEffects {α : Type} {f : Effect → Option α} {effects : List Effect}
    (hf : ∀ e, e.isCheckReport = true → f e = none) :
    (ownEffects effects).filterMap f = effects.filterMap f := by
  rw [ownEffects, List.filterMap_filter]
  congr 1
  funext e
  cases h : e.isCheckReport with
  | false => simp
  | true => simp [hf e h]

theorem isCheckReport_iff {e : Effect} :
    e.isCheckReport = true ↔ ∃ fault, e = .report .hasChanges fault := by
  cases e with
  | report operation fault => cases operation <;> simp [Effect.isCheckReport]
  | _ => simp [Effect.isCheckReport]

namespace System

variable {origin sys sys' : System} {i j : Nat} {t : Task} {m : Move} {hs : List Happening}
  {r : Request} {found : SessionState}

/-- What a task with the gate found at its turn is still so, until it comes to its end. -/
structure Steady (hs : List Happening) (sys : System) : Prop where
  underWay {i : Nat} {r : Request} {found : SessionState} {t : Task} {d : Discipline}
    {call : Call} {resume : Except Fault call.Answer → Plan} (h : .began i r found ∈ hs)
    (hg : r.takesGate = true) (ht : sys.task? i = some t)
    (hp : t.position = .inCall d call resume) : sys.state = found
  replied {i : Nat} {r : Request} {found : SessionState} {c : Completion}
    (h : .began i r found ∈ hs) (hg : r.takesGate = true) (hc : .replied i c ∈ hs) :
    c.before = found

/-- A task that is in a call after a step and had its turn before was in one before. -/
theorem inCall_of_goesOn {u : Task} (h : GoesOn t u) (hb : t.position ≠ .waiting)
    {d : Discipline} {call : Call} {resume : Except Fault call.Answer → Plan}
    (hp : u.position = .inCall d call resume) :
    ∃ (d : Discipline) (call : Call) (resume : Except Fault call.Answer → Plan),
      t.position = .inCall d call resume := by
  cases ht : t.position with
  | waiting => exact absurd ht hb
  | inCall d call resume => exact ⟨d, call, resume, rfl⟩
  | ended r => simp [h.stays (ht ▸ trivial), ht] at hp
  | dropped => simp [h.stays (ht ▸ trivial), ht] at hp

theorem steady_step (hr : origin.Run hs sys) (ho : origin.IsFresh) (hm : sys.Step m sys')
    (h : Steady hs sys) : Steady (hs ++ m.happenings sys sys') sys' := by
  have hord := hr.orderly ho
  have hplan := hr.planned ho
  constructor
  · intro i r found u d call resume hb hg hu hp
    have hreq : u.request = r := by
      obtain ⟨u', hu', hreq, -⟩ := (hr.snoc hm).shows _ hb
      cases hu.symm.trans hu'
      exact hreq
    rw [state_of_inCall hm hord hplan hu (hreq ▸ hg) hp]
    rcases List.mem_append.mp hb with hb | hb
    · obtain ⟨t, ht, -, hw⟩ := hr.shows _ hb
      obtain ⟨u', hu', hgo⟩ := goesOn_step hm ht
      cases hu.symm.trans hu'
      obtain ⟨d', call', resume', hp'⟩ := inCall_of_goesOn hgo hw hp
      exact h.underWay hb hg ht hp'
    · exact (began_of_mem hb).2.1.symm
  · intro i r found c hb hg hc
    rcases List.mem_append.mp hb with hb | hb <;> rcases List.mem_append.mp hc with hc | hc
    · exact h.replied hb hg hc
    · -- the task was in a call, where the session was as it had been found
      obtain ⟨t, ht, hrep⟩ := replies_of_mem hm hc
      obtain ⟨t', ht', -, hw⟩ := hr.shows _ hb
      cases ht.symm.trans ht'
      rw [hrep.before_eq]
      cases hp : t.position with
      | waiting => exact absurd hp hw
      | inCall d call resume => exact h.underWay hb hg ht hp
      | _ => exact absurd (hp ▸ trivial) hrep.not_over
    · -- no task has its turn after its end
      obtain ⟨t', ht', -, hend⟩ := hr.shows _ hc
      obtain ⟨rfl, -, t, ht, -⟩ := began_of_mem hb
      cases ht.symm.trans ht'
      cases hm with
      | arrive hu hcomes =>
        cases hcomes with
        | turn hw =>
          cases ht.symm.trans hu
          simp [hend] at hw
    · obtain ⟨t, -, hrep⟩ := replies_of_mem hm hc
      rw [hrep.before_eq, (began_of_mem hb).2.1]

theorem Run.steady (h : origin.Run hs sys) (ho : origin.IsFresh) : Steady hs sys := by
  induction h with
  | nil => exact ⟨nofun, nofun⟩
  | snoc h hm ih => exact steady_step h ho hm ih

/-- A task without the gate leaves the gate alone. -/
theorem gate_leave_of_no_gate (ho : sys.Orderly) (ht : sys.task? i = some t)
    (hg : t.request.takesGate = false) : sys.gate.leave i = sys.gate := by
  have hh : sys.gate.holder ≠ some i := by
    intro hh
    obtain ⟨u, hu, hr, -⟩ := ho.holder hh
    cases ht.symm.trans hu
    simp [hg] at hr
  have hq : i ∉ sys.gate.queue := by
    intro hq
    obtain ⟨u, hu, hr, -⟩ := ho.queued hq
    cases ht.symm.trans hu
    simp [hg] at hr
  rw [Gate.leave, if_neg hh, List.erase_of_not_mem hq]

/-- What happens to a check for changes touches neither session nor gate nor engine. -/
theorem check_step (hm : sys.Step m sys') (ho : sys.Orderly) (hp : sys.Planned)
    (hi : m.task? = some i) (ht : sys.task? i = some t) (hg : t.request.takesGate = false) :
    sys'.state = sys.state ∧ sys'.gate = sys.gate ∧
      (∃ es, sys'.history = sys.history ++ es ∧ OnlyReports es) ∧
      engineCallsOf (m.happenings sys sys') = [] := by
  have silent : ∃ es, sys.history = sys.history ++ es ∧ OnlyReports es :=
    ⟨[], by simp, by simp [OnlyReports]⟩
  have hleave := gate_leave_of_no_gate ho ht hg
  cases step_change hm with
  | issues => cases hi
  | fires => exact ⟨rfl, rfl, silent, rfl⟩
  | stays => exact ⟨rfl, rfl, silent, rfl⟩
  | drops hu =>
    cases hi
    exact ⟨rfl, hleave, silent, rfl⟩
  | joins hu hw hgu =>
    cases hi
    cases ht.symm.trans hu
    simp [hg] at hgu
  | cancels hu _ hq =>
    cases hi.symm.trans hq.task?_eq
    refine ⟨rfl, hleave, silent, ?_⟩
    rw [hq.happenings hu, engineCallsOf_append, engineCallsOf_opening]
    rfl
  | calls hu _ hc =>
    cases hi.symm.trans hc.task?_eq
    cases ht.symm.trans hu
    cases call_of_no_gate (onCourse_of_comes hp ht hc) hg
    refine ⟨rfl, rfl, silent, ?_⟩
    rw [hc.happenings_call ht, engineCallsOf_append, engineCallsOf_opening]
    rfl
  | concludes hu hc =>
    cases hi.symm.trans hc.task?_eq
    cases ht.symm.trans hu
    obtain ⟨hs, he⟩ := state_of_no_gate (onCourse_of_comes hp ht hc) hg sys.state
    refine ⟨hs, hleave, ⟨_, rfl, he⟩, ?_⟩
    rw [hc.happenings_conclude ht, engineCallsOf_append, engineCallsOf_opening]
    rfl

theorem mem_eventsOf {effects : List Effect} {event : SessionEvent}
    (h : .publish event ∈ effects) : event ∈ eventsOf effects :=
  List.mem_filterMap.mpr ⟨_, h, rfl⟩

theorem eq_of_tells {c : Conclusion} {e event : SessionEvent} (ht : c.Tells event)
    (h : .publish e ∈ c.effects) : e = event := by
  have := mem_eventsOf h
  rw [ht.events] at this
  exact List.mem_singleton.mp this

/-- The snapshot that a commit promotes is the one whose version it announces. -/
theorem promoted_of_ending {s : SessionState} {c : Conclusion} {version : Nat}
    (h : Ending s r c) (he : .publish (.committed version) ∈ c.effects) :
    ∃ session pending, s = .active session ∧ session.pending = some pending ∧
      c.state = .active { session with committed := pending, pending := none } ∧
      pending.version = version := by
  cases h with
  | idle => cases he
  | violates _ _ _ _ _ ht => cases eq_of_tells ht he
  | faults _ _ _ _ ht => cases eq_of_tells ht he
  | starts _ _ _ _ _ ht => cases eq_of_tells ht he
  | breaks _ _ _ _ ht => cases eq_of_tells ht he
  | computes _ _ _ _ _ ht => cases eq_of_tells ht he
  | commits hs hp _ hc ht =>
    cases eq_of_tells ht he
    exact ⟨_, _, hs, hp, hc, rfl⟩
  | discards _ _ _ _ ht => cases eq_of_tells ht he
  | finishes _ _ _ ht => cases eq_of_tells ht he

theorem Run.promoted {c : Completion} {version : Nat} (h : origin.Run hs sys)
    (ho : origin.IsFresh) (hc : .replied i c ∈ hs)
    (he : .publish (.committed version) ∈ c.effects) :
    ∃ session pending, c.before = .active session ∧ session.pending = some pending ∧
      c.after = .active { session with committed := pending, pending := none } ∧
      pending.version = version := by
  cases h.regular ho hc with
  | calledOff _ _ hn => simp [hn] at he
  | checked _ _ hn => cases hn _ he
  | ended _ hend => exact promoted_of_ending hend he

/-- Another run, whose `k`-th task is the one with the `k`-th turn, came to the same. -/
structure SameInTurns (hs : List Happening) (sys : System) (hs' : List Happening)
    (ser : System) : Prop where
  state : ser.state = sys.state
  events : eventsOf ser.history = eventsOf sys.history
  audits : auditsOf ser.history = auditsOf sys.history
  disables : disablesOf ser.history = disablesOf sys.history
  calls : engineCallsOf hs' = engineCallsOf hs
  count : ser.tasks.length = (turnsOf hs).length
  tasks {k i : Nat} (hk : (turnsOf hs)[k]? = some i) : ser.task? k = sys.task? i
  answers {k i : Nat} (hk : (turnsOf hs)[k]? = some i) : answersTo k hs' = answersTo i hs

theorem Serialized.same {hs' : List Happening} {ser : System}
    (h : origin.Serialized (turnsOf hs) hs sys hs' ser) : SameInTurns hs sys hs' ser where
  state := h.mirrors.state
  events := by
    rw [h.mirrors.history]
    refine filterMap_ownEffects fun e he => ?_
    obtain ⟨fault, rfl⟩ := isCheckReport_iff.mp he
    rfl
  audits := by
    rw [h.mirrors.history]
    refine filterMap_ownEffects fun e he => ?_
    obtain ⟨fault, rfl⟩ := isCheckReport_iff.mp he
    rfl
  disables := by
    rw [h.mirrors.history]
    refine filterMap_ownEffects fun e he => ?_
    obtain ⟨fault, rfl⟩ := isCheckReport_iff.mp he
    rfl
  calls := h.log.calls
  count := h.mirrors.length_eq
  tasks hk := h.mirrors.task?_eq hk
  answers hk := h.log.answers hk

/-- Whatever the interleaving, all is as if the requests had been served in gate order. -/
theorem serializable_in_gate_order (h : origin.Run hs sys) (ho : origin.IsFresh) :
    (∃ hs' ser, origin.SerialRun hs' ser ∧ SameInTurns hs sys hs' ser) ∧
    (∀ i t, sys.task? i = some t → t.request.takesGate = true → i ∉ turnsOf hs →
      t.position = .waiting ∨ t.position = .dropped ∨ t.position = .ended .cancelled) ∧
    (∀ i r found, .began i r found ∈ hs → r.takesGate = true →
      (∀ t d call resume, sys.task? i = some t → t.position = .inCall d call resume →
        sys.state = found) ∧
      ∀ c, .replied i c ∈ hs → c.before = found) ∧
    (∀ i c version, .replied i c ∈ hs → .publish (.committed version) ∈ c.effects →
      ∃ session pending, c.before = .active session ∧ session.pending = some pending ∧
        c.after = .active { session with committed := pending, pending := none } ∧
        pending.version = version) ∧
    ∀ i t m sys', sys.task? i = some t → t.request.takesGate = false → sys.Step m sys' →
      m.task? = some i → sys'.state = sys.state ∧ sys'.gate = sys.gate ∧
        (∃ es, sys'.history = sys.history ++ es ∧ OnlyReports es) ∧
        engineCallsOf (m.happenings sys sys') = [] := by
  refine ⟨?_, fun i t ht hg hi => h.without_turn ho ht hg hi, ?_, ?_, ?_⟩
  · obtain ⟨hs', ser, hser⟩ := h.serialized ho
    exact ⟨hs', ser, hser.serial, hser.same⟩
  · intro i r found hb hg
    have hsteady := h.steady ho
    exact ⟨fun t d call resume ht hp => hsteady.underWay hb hg ht hp,
      fun c hc => hsteady.replied hb hg hc⟩
  · intro i c version hc he
    exact h.promoted ho hc he
  · intro i t m sys' ht hg hm hi
    exact check_step hm (h.orderly ho) (h.planned ho) hi ht hg

theorem serializable_queued_break : ∃ hs sys hs' ser, System.Run { settings := {} } hs sys ∧
    turnsOf hs = [1, 0] ∧ SerialRun { settings := {} } hs' ser ∧ ser.state = sys.state ∧
      ser.task? 1 = sys.task? 0 := by
  have fresh : System.Run { settings := {} } [] _ := .nil
  have issued := (fresh.snoc (.issue .enterBreak false)).snoc (.issue .start false)
  -- the later request comes to the gate first, and the earlier one waits while it is in a call
  have admitted := issued.snoc (.approach (i := 1) rfl rfl rfl)
  have begun := admitted.snoc (.arrive (i := 1) rfl (.turn rfl fun _ => rfl))
  have queued := begun.snoc (.approach (i := 0) rfl rfl rfl)
  have failed := queued.snoc (.arrive (i := 1) rfl (.answer rfl (.error (.panic ""))))
  have served := failed.snoc (.arrive (i := 0) rfl (.turn rfl fun _ => rfl))
  obtain ⟨⟨hs', ser, hser, hsame⟩, -⟩ := serializable_in_gate_order served ⟨rfl, rfl, rfl⟩
  exact ⟨_, _, hs', ser, served, rfl, hser, hsame.state, hsame.tasks rfl⟩

end System

end LiveEdit
