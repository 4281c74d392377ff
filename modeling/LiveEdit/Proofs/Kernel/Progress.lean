import LiveEdit.Proofs.Kernel.OpenWorld

/-! Nobody waits for ever: every request that somebody waits for can come to its end. -/
namespace LiveEdit.Kernel.OpenWorld

/-- A task comes to its end, and nobody else moves. -/
structure Retires (w : OpenWorld) (i : Nat) (w' : OpenWorld) : Prop where
  reply : ∃ reply, w'.system.reply? i = some reply
  gate : w'.system.gate = w.system.gate.leave i
  others {j : Nat} (hj : i ≠ j) : w'.system.task? j = w.system.task? j

/-- The task can come to its end. -/
def CanEnd (w : OpenWorld) (i : Nat) : Prop :=
  ∃ hs w' reply, w.Run hs w' ∧ w'.system.reply? i = some reply

variable {origin w w' : OpenWorld} {i j : Nat} {t : Task} {hs : List Happening}

/-- Whoever comes to a plan can go through with it. -/
theorem ends_of_plan (p : Plan) (ht : w.system.task? i = some t)
    (hw : ∃ hs engine, w.Step hs ⟨w.system.arrive i p, engine⟩) :
    ∃ hs' w', w.Run hs' w' ∧ w.Retires i w' := by
  induction p generalizing w t with
  | conclude f =>
    obtain ⟨hs, engine, hw⟩ := hw
    refine ⟨_, _, Run.nil.snoc hw, ⟨_, System.reply?_leave ht⟩, rfl, fun hj => ?_⟩
    exact System.task?_setPosition_of_ne hj
  | await d call resume ih =>
    obtain ⟨hs, engine, hw⟩ := hw
    cases hf : w.system.hasFired i with
    | true =>
      have harrive : w.system.arrive i (.await d call resume) =
          w.system.leave i (.ended .cancelled) := by
        rw [System.arrive, if_pos hf]
      rw [harrive] at hw
      refine ⟨_, _, Run.nil.snoc hw, ⟨_, System.reply?_leave ht⟩, rfl, fun hj => ?_⟩
      exact System.task?_setPosition_of_ne hj
    | false =>
      have harrive : w.system.arrive i (.await d call resume) =
          w.system.setPosition i (.inCall d call resume) := by
        rw [System.arrive, hf]
        rfl
      rw [harrive] at hw
      have hin := System.task?_setPosition_self (p := .inCall d call resume) ht
      have hanswer := Step.work (w := ⟨_, engine⟩) ⟨.new 0, engine⟩ rfl
        (.arrive hin (.answer rfl _))
      obtain ⟨hs', w', hrun, hretires⟩ := ih _ hin ⟨_, _, hanswer⟩
      refine ⟨_, w', (Run.nil.snoc hw).trans hrun, hretires.reply, hretires.gate, fun hj => ?_⟩
      exact (hretires.others hj).trans (System.task?_setPosition_of_ne hj)

/-- Whoever has its turn, or is in a call, can come to its end. -/
theorem ends_of_turn (ht : w.system.task? i = some t) (hover : ¬ t.position.IsOver)
    (hg : t.request.takesGate = true → w.system.gate.holder = some i) :
    ∃ hs' w', w.Run hs' w' ∧ w.Retires i w' := by
  cases hp : t.position with
  | waiting =>
    exact ends_of_plan _ ht ⟨_, _, .move (.arrive ht (.turn hp hg)) (by rintro _ _ ⟨⟩)⟩
  | inCall d call resume =>
    exact ends_of_plan _ ht ⟨_, _, .work ⟨.new 0, w.engine⟩ rfl (.arrive ht (.answer hp _))⟩
  | _ => exact absurd (hp ▸ trivial) hover

theorem Retires.canEnd (h : w.Retires i w') (hw : w.Run hs w') : w.CanEnd i := by
  obtain ⟨reply, hr⟩ := h.reply
  exact ⟨hs, w', reply, hw, hr⟩

theorem CanEnd.before (h : w'.CanEnd i) (hw : w.Run hs w') : w.CanEnd i := by
  obtain ⟨hs', v, reply, hrun, hr⟩ := h
  exact ⟨hs ++ hs', v, reply, hw.trans hrun, hr⟩

theorem canEnd_of_turn (ht : w.system.task? i = some t) (hover : ¬ t.position.IsOver)
    (hg : t.request.takesGate = true → w.system.gate.holder = some i) : w.CanEnd i := by
  obtain ⟨hs', w', hrun, hretires⟩ := ends_of_turn ht hover hg
  exact hretires.canEnd hrun

/-- Those before it in the queue can come to their ends, and then it can. -/
theorem Run.canEnd_of_queue (h : origin.Run hs w) (ho : origin.IsFresh)
    (ht : w.system.task? i = some t) (hw : t.position = .waiting)
    (hin : w.system.gate.holder = some i ∨ i ∈ w.system.gate.queue) : w.CanEnd i := by
  have hover : ¬ t.position.IsOver := by simp [hw, Position.IsOver]
  induction hq : w.system.gate.queue generalizing hs w with
  | nil =>
    rcases hin with hh | hin
    · exact canEnd_of_turn ht hover fun _ => hh
    · simp [hq] at hin
  | cons k ks ih =>
    rcases hin with hh | hin
    · exact canEnd_of_turn ht hover fun _ => hh
    · have hord := h.system.orderly ho.system
      obtain ⟨j, hj⟩ : ∃ j, w.system.gate.holder = some j := by
        cases hh : w.system.gate.holder with
        | none => simp [h.system.unqueued ho.system hh] at hq
        | some j => exact ⟨j, rfl⟩
      obtain ⟨u, hu, -, huover⟩ := hord.holder hj
      have hji : j ≠ i := by
        rintro rfl
        exact hord.apart hj hin
      -- the holder's end hands the gate on to the first in the queue
      obtain ⟨hs', w', hrun, hretires⟩ := ends_of_turn hu huover fun _ => hj
      have hgate : w'.system.gate = ⟨some k, ks⟩ := by
        simp [hretires.gate, Gate.leave, hj, hq]
      have ht' : w'.system.task? i = some t := (hretires.others hji).trans ht
      have hin' : some k = some i ∨ i ∈ ks := by
        rcases List.mem_cons.mp (hq ▸ hin) with rfl | hin
        · exact .inl rfl
        · exact .inr hin
      have hlater := ih (h.trans hrun) ht' (by rw [hgate]; exact hin') (by rw [hgate])
      exact hlater.before hrun

/-- Whoever comes to the gate can come to its end. -/
theorem Run.canEnd_of_gate (h : origin.Run hs w) (ho : origin.IsFresh)
    (ht : w.system.task? i = some t) (hw : t.position = .waiting)
    (hg : t.request.takesGate = true) : w.CanEnd i := by
  have hstep : w.Step _ { w with system := w.system.approach i } :=
    .move (.approach ht hw hg) (by rintro _ _ ⟨⟩)
  cases hf : t.fired with
  | true =>
    have happroach : w.system.approach i = w.system.leave i (.ended .cancelled) := by
      rw [System.approach, System.hasFired_eq ht, if_pos hf]
    rw [happroach] at hstep
    exact ⟨_, _, _, Run.nil.snoc hstep, System.reply?_leave ht⟩
  | false =>
    have happroach : w.system.approach i = { w.system with gate := w.system.gate.join i } := by
      rw [System.approach, System.hasFired_eq ht, hf]
      rfl
    rw [happroach] at hstep
    have hin : (w.system.gate.join i).holder = some i ∨ i ∈ (w.system.gate.join i).queue := by
      rw [Gate.join]
      split
      next hin => exact hin
      next => split <;> simp
    exact ((h.snoc hstep).canEnd_of_queue ho ht hw hin).before (Run.nil.snoc hstep)

/-- Every request that somebody waits for can come to its end. -/
theorem Run.canEnd (h : origin.Run hs w) (ho : origin.IsFresh) (ht : w.system.task? i = some t)
    (hd : t.position ≠ .dropped) : w.CanEnd i := by
  cases hp : t.position with
  | waiting =>
    cases hg : t.request.takesGate with
    | false => exact canEnd_of_turn ht (by simp [hp, Position.IsOver]) (by simp [hg])
    | true => exact h.canEnd_of_gate ho ht hp hg
  | inCall d call resume =>
    refine canEnd_of_turn ht (by simp [hp, Position.IsOver]) fun hg => ?_
    exact (h.system.orderly ho.system).inCall ht hg hp
  | ended reply => exact ⟨[], w, reply, .nil, (System.reply?_eq_some_iff ht).mpr hp⟩
  | dropped => exact absurd hp hd

end LiveEdit.Kernel.OpenWorld
