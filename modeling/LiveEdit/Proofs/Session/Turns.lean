import LiveEdit.Proofs.Session.Run

/-! Whoever is in a call of a request that takes the gate holds the gate, so no two are. -/
namespace LiveEdit.System

variable {origin sys sys' : System} {i j : Nat} {t : Task} {p : Position} {m : Move}
  {hs : List Happening}

structure Orderly (sys : System) : Prop where
  holder {i : Nat} (h : sys.gate.holder = some i) : ∃ t, sys.task? i = some t ∧
    t.request.takesGate = true ∧ ¬ t.position.IsOver
  queued {i : Nat} (h : i ∈ sys.gate.queue) : ∃ t, sys.task? i = some t ∧
    t.request.takesGate = true ∧ t.position = .waiting
  nodup : sys.gate.queue.Nodup
  apart {i : Nat} (h : sys.gate.holder = some i) : i ∉ sys.gate.queue
  inCall {i : Nat} {t : Task} {d : Discipline} {call : Call}
    {resume : Except Fault call.Answer → Plan} (ht : sys.task? i = some t)
    (hg : t.request.takesGate = true) (hp : t.position = .inCall d call resume) :
    sys.gate.holder = some i

theorem orderly_of_isFresh (h : sys.IsFresh) : sys.Orderly where
  holder := by simp [h.gate]
  queued := by simp [h.gate]
  nodup := by simp [h.gate]
  apart := by simp [h.gate]
  inCall ht := by simp [task?, h.tasks] at ht

theorem orderly_issue {r : Request} {fired : Bool} (h : sys.Orderly) :
    (sys.issue r fired).Orderly where
  holder hi := by
    obtain ⟨t, ht, hr⟩ := h.holder hi
    exact ⟨t, by rw [task?_issue, if_neg (Nat.ne_of_lt (task?_lt ht)), ht], hr⟩
  queued hi := by
    obtain ⟨t, ht, hr⟩ := h.queued hi
    exact ⟨t, by rw [task?_issue, if_neg (Nat.ne_of_lt (task?_lt ht)), ht], hr⟩
  nodup := h.nodup
  apart := h.apart
  inCall ht hg hp := by
    rw [task?_issue] at ht
    split at ht
    · cases ht
      cases hp
    · exact h.inCall ht hg hp

theorem orderly_fire (h : sys.Orderly) : (sys.fire i).Orderly where
  holder {j} hj := by
    obtain ⟨t, ht, hr⟩ := h.holder hj
    by_cases hij : i = j <;> simp [task?_fire, hij, ht, hr]
  queued {j} hj := by
    obtain ⟨t, ht, hr⟩ := h.queued hj
    by_cases hij : i = j <;> simp [task?_fire, hij, ht, hr]
  nodup := h.nodup
  apart := h.apart
  inCall {j} _ _ _ _ ht hg hp := by
    rw [task?_fire] at ht
    split at ht
    · obtain ⟨t, hj, rfl⟩ := Option.map_eq_some_iff.mp ht
      exact h.inCall hj hg hp
    · exact h.inCall ht hg hp

theorem orderly_join (h : sys.Orderly) (ht : sys.task? i = some t) (hw : t.position = .waiting)
    (hg : t.request.takesGate = true) :
    Orderly { sys with gate := sys.gate.join i } := by
  by_cases hin : sys.gate.holder = some i ∨ i ∈ sys.gate.queue
  · simpa [Gate.join, hin] using h
  · cases hh : sys.gate.holder with
    | none =>
      have hgate : sys.gate.join i = { sys.gate with holder := some i } := by
        simp_all [Gate.join]
      rw [hgate]
      refine ⟨?_, h.queued, h.nodup, ?_, ?_⟩
      · rintro j ⟨⟩
        exact ⟨t, ht, hg, by simp [hw, Position.IsOver]⟩
      · rintro j ⟨⟩ hj
        exact hin (.inr hj)
      · intro j t d call resume ht hg hp
        have := h.inCall ht hg hp
        simp [hh] at this
    | some k =>
      have hgate : sys.gate.join i = { sys.gate with queue := sys.gate.queue ++ [i] } := by
        simp_all [Gate.join]
      rw [hgate]
      refine ⟨h.holder, ?_, ?_, ?_, h.inCall⟩
      · intro j hj
        rcases List.mem_append.mp hj with hj | hj
        · exact h.queued hj
        · rw [List.mem_singleton.mp hj]
          exact ⟨t, ht, hg, hw⟩
      · exact List.nodup_append.mpr ⟨h.nodup, by simp, by
          rintro a ha b hb rfl
          exact hin (.inr (List.mem_singleton.mp hb ▸ ha))⟩
      · intro j hj hq
        rcases List.mem_append.mp hq with hq | hq
        · exact h.apart hj hq
        · exact hin (.inl (List.mem_singleton.mp hq ▸ hj))

theorem task?_leave_of_ne (hij : i ≠ j) : (sys.leave i p).task? j = sys.task? j :=
  task?_setPosition_of_ne hij

/-- Whoever is in a call when another has left held the gate before. -/
theorem Orderly.inCall_leave {d : Discipline} {call : Call}
    {resume : Except Fault call.Answer → Plan} (h : sys.Orderly) (hp : p.IsOver)
    (ht : (sys.leave i p).task? j = some t) (hg : t.request.takesGate = true)
    (hc : t.position = .inCall d call resume) : i ≠ j ∧ sys.gate.holder = some j := by
  have hij : i ≠ j := by
    rintro rfl
    rw [task?_leave, task?_setPosition, if_pos rfl] at ht
    obtain ⟨u, -, rfl⟩ := Option.map_eq_some_iff.mp ht
    simp only at hc
    simp [hc, Position.IsOver] at hp
  exact ⟨hij, h.inCall (task?_leave_of_ne hij ▸ ht) hg hc⟩

/-- The holder of the gate hands it on to the first who waits. -/
theorem orderly_leave_holder (h : sys.Orderly) (hp : p.IsOver)
    (hh : sys.gate.holder = some i) : (sys.leave i p).Orderly := by
  have hgate : (sys.leave i p).gate = ⟨sys.gate.queue.head?, sys.gate.queue.tail⟩ := by
    simp [leave, setPosition, Gate.leave, hh]
  have hne {j : Nat} (hj : j ∈ sys.gate.queue) : i ≠ j := by
    rintro rfl
    exact h.apart hh hj
  constructor
  case holder =>
    intro j hj
    rw [hgate] at hj
    have hq := List.mem_of_mem_head? hj
    obtain ⟨t, ht, hg, hw⟩ := h.queued hq
    exact ⟨t, (task?_leave_of_ne (hne hq)).trans ht, hg, by simp [hw, Position.IsOver]⟩
  case queued =>
    intro j hj
    rw [hgate] at hj
    have hq := List.mem_of_mem_tail hj
    obtain ⟨t, ht, hr⟩ := h.queued hq
    exact ⟨t, (task?_leave_of_ne (hne hq)).trans ht, hr⟩
  case nodup =>
    rw [hgate]
    exact h.nodup.tail
  case apart =>
    intro j hj
    rw [hgate] at hj ⊢
    have hn := h.nodup
    cases hq : sys.gate.queue with
    | nil => simp [hq] at hj
    | cons k ks =>
      simp only [hq, List.head?_cons, Option.some.injEq] at hj
      subst hj
      exact (List.nodup_cons.mp (hq ▸ hn)).1
  case inCall =>
    intro j t d call resume ht hg hc
    obtain ⟨hij, hj⟩ := h.inCall_leave hp ht hg hc
    exact absurd (Option.some.inj (hh.symm.trans hj)) hij

/-- Who waits for the gate gives up the wait. -/
theorem orderly_leave_other (h : sys.Orderly) (hp : p.IsOver)
    (hh : sys.gate.holder ≠ some i) : (sys.leave i p).Orderly := by
  have hgate : (sys.leave i p).gate = { sys.gate with queue := sys.gate.queue.erase i } := by
    simp [leave, setPosition, Gate.leave, hh]
  constructor
  case holder =>
    intro j hj
    rw [hgate] at hj
    obtain ⟨t, ht, hr⟩ := h.holder hj
    have hij : i ≠ j := fun hij => hh (hij ▸ hj)
    exact ⟨t, (task?_leave_of_ne hij).trans ht, hr⟩
  case queued =>
    intro j hj
    rw [hgate] at hj
    obtain ⟨hji, hq⟩ := h.nodup.mem_erase_iff.mp hj
    obtain ⟨t, ht, hr⟩ := h.queued hq
    exact ⟨t, (task?_leave_of_ne hji.symm).trans ht, hr⟩
  case nodup =>
    rw [hgate]
    exact h.nodup.erase i
  case apart =>
    intro j hj hq
    rw [hgate] at hj hq
    exact h.apart hj (List.mem_of_mem_erase hq)
  case inCall =>
    intro j t d call resume ht hg hc
    rw [hgate]
    exact (h.inCall_leave hp ht hg hc).2

theorem orderly_leave (h : sys.Orderly) (hp : p.IsOver) : (sys.leave i p).Orderly := by
  by_cases hh : sys.gate.holder = some i
  · exact orderly_leave_holder h hp hh
  · exact orderly_leave_other h hp hh

/-- A task that comes to a plan and takes the gate holds the gate. -/
theorem Orderly.holder_of_comes {q : Plan} (h : sys.Orderly) (ht : sys.task? i = some t)
    (hc : sys.Comes i t m q) (hg : t.request.takesGate = true) :
    sys.gate.holder = some i := by
  cases hc with
  | turn hw hh => exact hh hg
  | answer hp => exact h.inCall ht hg hp

/-- When a task with the gate concludes, nobody else with the gate is in a call. -/
theorem Orderly.no_call_left {f : SessionState → Conclusion} (h : sys.Orderly)
    (ht : sys.task? i = some t) (hg : t.request.takesGate = true)
    (hc : sys.Comes i t m (.conclude f)) {u : Task} {d : Discipline} {call : Call}
    {resume : Except Fault call.Answer → Plan}
    (hu : (sys.arrive i (.conclude f)).task? j = some u) (hgu : u.request.takesGate = true) :
    u.position ≠ .inCall d call resume := by
  intro hp
  obtain ⟨v, hv, hr, hpv | hcomes⟩ := inCall_step (.arrive ht hc) hu hp
  · have hi := h.holder_of_comes ht hc hg
    cases hi.symm.trans (h.inCall hv (hr ▸ hgu) (hpv.trans hp))
    have hend := task?_setPosition_self (p := .ended (f sys.state).reply) ht
    cases hu.symm.trans hend
    cases hp
  · cases (hc.unique hcomes ht hv).2.2

theorem orderly_call {d : Discipline} {call : Call} {resume : Except Fault call.Answer → Plan}
    (h : sys.Orderly) (ht : sys.task? i = some t)
    (hc : sys.Comes i t m (.await d call resume)) :
    (sys.setPosition i (.inCall d call resume)).Orderly := by
  have hi (hg : t.request.takesGate = true) := h.holder_of_comes ht hc hg
  refine ⟨?_, ?_, h.nodup, h.apart, ?_⟩
  · intro j hj
    obtain ⟨u, hu, hr⟩ := h.holder hj
    by_cases hij : i = j
    · subst hij
      refine ⟨_, task?_setPosition_self ht, ?_, not_false⟩
      simpa [ht] using (Option.some.inj (ht.symm.trans hu)) ▸ hr.1
    · exact ⟨u, (task?_setPosition_of_ne hij).trans hu, hr⟩
  · intro j hj
    obtain ⟨u, hu, hr⟩ := h.queued hj
    have hij : i ≠ j := by
      rintro rfl
      cases ht.symm.trans hu
      exact h.apart (hi hr.1) hj
    exact ⟨u, (task?_setPosition_of_ne hij).trans hu, hr⟩
  · intro j u d' call' resume' hu hg hp
    by_cases hij : i = j
    · subst hij
      rw [task?_setPosition_self ht] at hu
      cases hu
      exact hi hg
    · rw [task?_setPosition_of_ne hij] at hu
      exact h.inCall hu hg hp

theorem orderly_step (hm : sys.Step m sys') (h : sys.Orderly) : sys'.Orderly := by
  cases step_change hm with
  | issues => exact orderly_issue h
  | fires => exact orderly_fire h
  | stays => exact h
  | drops => exact orderly_leave h trivial
  | joins ht hw hg => exact orderly_join h ht hw hg
  | cancels => exact orderly_leave h trivial
  | calls ht _ hc => exact orderly_call h ht hc
  | @concludes i t m f =>
    have hl : (sys.leave i (.ended (f sys.state).reply)).Orderly := orderly_leave h trivial
    exact ⟨hl.holder, hl.queued, hl.nodup, hl.apart, hl.inCall⟩

theorem Run.orderly (h : origin.Run hs sys) (ho : origin.IsFresh) : sys.Orderly := by
  induction h with
  | nil => exact orderly_of_isFresh ho
  | snoc _ hm ih => exact orderly_step hm ih

/-- Nobody waits for a gate that is free. -/
theorem unqueued_step (hm : sys.Step m sys') (h : sys.gate.holder = none → sys.gate.queue = []) :
    sys'.gate.holder = none → sys'.gate.queue = [] := by
  have left (j : Nat) : (sys.gate.leave j).holder = none → (sys.gate.leave j).queue = [] := by
    rw [Gate.leave]
    split
    · intro hn
      rw [List.head?_eq_none_iff.mp hn, List.tail_nil]
    · intro hn
      rw [h hn, List.erase_nil]
  cases step_change hm with
  | issues => exact h
  | fires => exact h
  | stays => exact h
  | joins =>
    simp only [Gate.join]
    split
    · exact h
    · split <;> simp_all
  | drops => exact left _
  | cancels => exact left _
  | calls => exact h
  | concludes => exact left _

theorem Run.unqueued (h : origin.Run hs sys) (ho : origin.IsFresh)
    (hn : sys.gate.holder = none) : sys.gate.queue = [] := by
  have hinv : sys.gate.holder = none → sys.gate.queue = [] := by
    clear hn
    induction h with
    | nil => simp [ho.gate]
    | snoc _ hm ih => exact unqueued_step hm ih
  exact hinv hn

end LiveEdit.System
