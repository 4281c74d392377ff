import LiveEdit.Kernel.Play
import LiveEdit.Proofs.Kernel.Run

/-! Whatever a client does in a world without a script is a run of that world. -/
namespace LiveEdit.Kernel

namespace World

variable {origin v w w' : World} {es es' : List StoreEdit} {hs hs' : List Happening}

theorem Run.trans (h : origin.Run es hs w) (h' : w.Run es' hs' w') :
    origin.Run (es ++ es') (hs ++ hs') w' := by
  induction h' with
  | nil => simpa using h
  | snoc _ hw ih => simpa only [← List.append_assoc] using ih.snoc hw

@[simp] theorem take_script (e : Effect) : (w.take e).script = w.script := by
  cases e <;> simp only [take]
  split <;> rfl

@[simp] theorem step_script (f : System → System) : (w.step f).script = w.script :=
  foldl_take (fun _ => take_script) _

theorem perform_system (call : Call) : (w.perform call).2.system = w.system := by
  cases call <;> cases hp : w.provided <;> simp [perform, hp]

theorem perform_script (call : Call) : (w.perform call).2.script = w.script := by
  cases call <;> cases hp : w.provided <;> simp [perform, hp]

/-- Without a script a call is only noted. -/
theorem noteCall_eq (h : w.script = []) (call : Call) : ∃ w', w.noteCall call = (.pass, w') ∧
    w.Step [] [] w' ∧ w'.script = w.script ∧ w'.system = w.system ∧
    w'.toCollaborators = w.toCollaborators ∧ w'.provided = w.provided := by
  refine ⟨_, ?_, .note { w.record with calls := w.record.calls ++ [.call (.of call)] },
    rfl, rfl, rfl, rfl⟩
  simp [noteCall, h]

theorem step_eq (f : System → System) : w.step f = w.step fun _ => f w.system := rfl

/-- The world comes to another one by a run, and still has no script. -/
def Reaches (v w : World) : Prop := w.script = [] ∧ ∃ es hs, v.Run es hs w

theorem Reaches.snoc (h : v.Reaches w) (hw : w.Step es hs w') (hs' : w'.script = w.script) :
    v.Reaches w' := by
  obtain ⟨hscript, es', hs', hrun⟩ := h
  exact ⟨by simp_all, _, _, hrun.snoc hw⟩

theorem Reaches.move {m : Move} {sys : System} (h : v.Reaches w) (hm : w.system.Step m sys)
    (ha : ∀ i a, m ≠ .answer i a) : v.Reaches (w.step fun _ => sys) :=
  h.snoc (.move hm ha) (step_script _)

end World

open World

variable {v w w' : World} {i : Nat} {t : Task}

theorem performAs_pass (call : Call) : w.performAs .pass call = w.perform call := rfl

section serve

variable {d : Discipline} {call : Call} {resume : Except Fault call.Answer → Plan}

/-- A task whose token has fired is served no further. -/
theorem serve_of_reply {reply : Reply}
    (hr : (w.step (·.arrive i (.await d call resume))).system.reply? i = some reply) :
    (serve i (.await d call resume)).run w =
      (some reply, w.step (·.arrive i (.await d call resume))) := by
  unfold serve
  simp only [StateT.run_bind, StateT.run_modify, StateT.run_get, pure_bind, hr, StateT.run_pure]
  rfl

/-- A call that nothing is said about does its work, and the task goes on with the answer. -/
theorem serve_of_call (hr : (w.step (·.arrive i (.await d call resume))).system.reply? i = none)
    (hn : (w.step (·.arrive i (.await d call resume))).noteCall call = (.pass, w')) :
    (serve i (.await d call resume)).run w =
      (serve i (resume (w'.perform call).1)).run (w'.perform call).2 := by
  cases d <;> simp only [serve, StateT.run_bind, StateT.run_modify, StateT.run_get, pure_bind, hr,
    StateT.run_modifyGet, hn, performAs_pass]

theorem task?_arrive_call {sys : System} (ht : sys.task? i = some t)
    (hr : (sys.arrive i (.await d call resume)).reply? i = none) :
    (sys.arrive i (.await d call resume)).task? i =
      some { t with position := .inCall d call resume } := by
  rw [System.arrive] at hr ⊢
  split at hr
  next =>
    rw [System.reply?_leave ht] at hr
    cases hr
  next hf =>
    rw [if_neg hf]
    exact System.task?_setPosition_self ht

theorem task?_approach {sys : System} (ht : sys.task? i = some t)
    (hr : (sys.approach i).reply? i = none) : (sys.approach i).task? i = some t := by
  rw [System.approach] at hr ⊢
  split at hr
  next =>
    rw [System.reply?_leave ht] at hr
    cases hr
  next hf =>
    rw [if_neg hf]
    exact ht

/-- A task in a call gets its answer. -/
theorem answer_reaches (h : v.Reaches w) (ht : w.system.task? i = some t)
    (hp : t.position = .inCall d call resume) :
    v.Reaches ((w.perform call).2.step (·.arrive i (resume (w.perform call).1))) := by
  rw [step_eq, perform_system]
  refine h.snoc (.answer (.arrive ht (.answer hp _))) ?_
  rw [step_script, perform_script]

end serve

/-- A task that has come to a plan goes on with it as far as it gets. -/
theorem serve_reaches (p : Plan) (ht : w.system.task? i = some t)
    (h : v.Reaches (w.step (·.arrive i p))) : v.Reaches ((serve i p).run w).2 := by
  induction p generalizing w t with
  | conclude f => exact h
  | await d call resume ih =>
    cases hr : (w.step (·.arrive i (.await d call resume))).system.reply? i with
    | some reply =>
      rw [serve_of_reply hr]
      exact h
    | none =>
      obtain ⟨w', hn, hnote, hscript, hsys, -⟩ := noteCall_eq h.1 call
      rw [serve_of_call hr hn]
      rw [step_system] at hr hsys
      have hcall := task?_arrive_call ht hr
      rw [← hsys] at hcall
      refine ih _ (perform_system call ▸ hcall) ?_
      exact answer_reaches (h.snoc hnote hscript) hcall rfl

theorem turn_reaches (h : v.Reaches w) (ht : w.system.task? i = some t)
    (hw : t.position = .waiting)
    (hg : t.request.takesGate = true → w.system.gate.holder = some i) :
    v.Reaches ((serve i (w.system.planOf t.request)).run w).2 :=
  serve_reaches _ ht (h.move (.arrive ht (.turn hw hg)) (by rintro _ _ ⟨⟩))

/-- However far a task gets without a script, the world comes there by a run. -/
theorem attend_reaches (h : v.Reaches w) : v.Reaches ((attend i).run w).2 := by
  unfold attend
  simp only [StateT.run_bind, StateT.run_get, pure_bind]
  cases ht : w.system.task? i with
  | none => exact h
  | some t =>
    obtain ⟨r, fired, position⟩ := t
    cases position with
    | ended reply => exact h
    | dropped => exact h
    | waiting =>
      cases hg : r.takesGate with
      | false =>
        have hturn := turn_reaches h ht rfl (by simp [hg])
        simpa [hg] using hturn
      | true =>
        have happroach := h.move (.approach ht rfl hg) (by rintro _ _ ⟨⟩)
        rw [← step_eq fun sys : System => sys.approach i] at happroach
        simp only [hg, if_true, StateT.run_bind, StateT.run_modify, StateT.run_get, pure_bind]
        cases hr : (w.step (·.approach i)).system.reply? i with
        | some reply => exact happroach
        | none =>
          simp only [StateT.run_bind, StateT.run_get, pure_bind]
          split
          next hh =>
            rw [step_system] at hr
            have hwaits := task?_approach ht hr
            rw [← step_system (w := w) (·.approach i)] at hwaits
            exact turn_reaches happroach hwaits rfl fun _ => hh
          next => exact happroach
    | inCall d call resume =>
      simp only
      split
      next hf =>
        simp only [Bool.and_eq_true, beq_iff_eq] at hf
        obtain ⟨rfl, rfl⟩ := hf
        exact h.move (.giveUp ht rfl rfl) (by rintro _ _ ⟨⟩)
      next hf =>
        simp only [StateT.run_bind, StateT.run_modifyGet, pure_bind]
        exact serve_reaches _ (perform_system call ▸ ht) (answer_reaches h ht rfl)

theorem rescan_reaches (h : v.Reaches w) : v.Reaches w.rescan.2 := by
  rw [rescan]
  split
  · exact h.snoc (.edit (.replaceAll _)) rfl
  · exact h

/-- Whatever a client does without a script, the world comes there by a run. -/
theorem play_reaches {α : Type} {fired : Bool} (client : Client α) (h : v.Reaches w) :
    v.Reaches ((play fired client).run w).2 := by
  induction client generalizing fired w with
  | done a => exact h
  | look next ih => exact ih _ h
  | poll next ih => exact ih _ h
  | rescan next ih => exact ih _ (rescan_reaches h)
  | note diagnostics rest ih => exact ih (h.snoc (.note _) rfl)
  | ask request next ih =>
    have hissued := h.move (.issue request fired) (by rintro _ _ ⟨⟩)
    rw [← step_eq fun sys : System => sys.issue request fired] at hissued
    have hattended := attend_reaches (i := w.system.tasks.length) hissued
    unfold play
    simp only [StateT.run_bind, StateT.run_get, StateT.run_modify, pure_bind]
    cases hr : (attend w.system.tasks.length).run (w.step (·.issue request fired)) with
    | mk reply? w' =>
      rw [hr] at hattended
      cases reply? with
      | none => exact hattended
      | some reply => exact ih reply hattended

/-- A client without a script goes on with the run of its world. -/
theorem World.Run.play {origin : World} {es : List StoreEdit} {hs : List Happening} {α : Type}
    {fired : Bool} (h : origin.Run es hs w) (hscript : w.script = []) (client : Client α) :
    ∃ es' hs', origin.Run (es ++ es') (hs ++ hs') ((Kernel.play fired client).run w).2 := by
  have hstart : w.Reaches w := ⟨hscript, [], [], .nil⟩
  obtain ⟨-, es', hs', hrun⟩ := @play_reaches _ _ _ fired client hstart
  exact ⟨es', hs', h.trans hrun⟩

end LiveEdit.Kernel
