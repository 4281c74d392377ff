import LiveEdit.Kernel.Play
import LiveEdit.Proofs.Kernel.Run
import LiveEdit.Proofs.Session.Disabled
import LiveEdit.Watch.Tick

/-! Once hot reload is off the coordinator leaves its world alone, and says so to all who ask. -/
namespace LiveEdit.Kernel

namespace World

variable {origin : System} {w w' : World} {es : List StoreEdit} {hs hs' : List Happening}

/-- A report is written down, and nothing else comes of it. -/
theorem foldl_take_reports {effects : List Effect} (h : OnlyReports effects) (w : World) :
    ∃ record, effects.foldl take w = { w with record } := by
  induction effects generalizing w with
  | nil => exact ⟨w.record, rfl⟩
  | cons e effects ih =>
    obtain ⟨record, htail⟩ := ih (fun e he => h e (List.mem_cons_of_mem _ he)) (w.take e)
    cases e with
    | report operation fault => exact ⟨record, htail⟩
    | _ => cases h _ List.mem_cons_self

theorem step_of_reports {sys : System} {effects : List Effect}
    (hh : w.heard = w.system.history.length) (hs : sys.history = w.system.history ++ effects)
    (h : OnlyReports effects) : ∃ record, (w.step fun _ => sys) =
      { w with system := sys, record, heard := sys.history.length } := by
  obtain ⟨record, hfold⟩ := foldl_take_reports h { w with system := sys }
  refine ⟨record, ?_⟩
  have hnew : sys.history.drop w.heard = effects := by
    rw [hh, hs, List.drop_left]
  simp only [step, hear, hnew, hfold]

/-- Nothing but the edits of the store changes what the coordinator works with. -/
structure Untouched (w : World) (es : List StoreEdit) (w' : World) : Prop where
  heard : w'.heard = w'.system.history.length
  engine : w'.engine = w.engine
  store : w'.store = es.foldl StoreEdit.apply w.store
  events : w'.events = w.events
  counters : w'.counters = w.counters

theorem untouched_step (h : origin.Run hs w.system) (ho : origin.IsFresh)
    (hd : w.system.state.isDisabled = true) (hh : w.heard = w.system.history.length)
    (hw : w.Step es hs' w') : w.Untouched es w' := by
  have hplanned := h.planned ho
  cases hw with
  | move hm =>
    obtain ⟨-, effects, hhistory, hreports⟩ := System.disabled_step hm (h.orderly ho) hplanned hd
    obtain ⟨record, heq⟩ := step_of_reports hh hhistory hreports
    rw [heq]
    exact ⟨rfl, rfl, rfl, rfl, rfl⟩
  | @answer i call sys hm =>
    obtain ⟨-, effects, hhistory, hreports⟩ := System.disabled_step hm (h.orderly ho) hplanned hd
    obtain ⟨record, heq⟩ := step_of_reports hh hhistory hreports
    have hcall : call = .currentSnapshot := by
      cases hm with
      | arrive ht hc =>
        cases hc with
        | answer hin =>
          have hg := System.no_gate_of_disabled hplanned hd ht hin
          exact System.call_of_no_gate (hplanned ht hin) hg
    subst hcall
    rw [perform_currentSnapshot, heq]
    exact ⟨rfl, rfl, rfl, rfl, rfl⟩
  | edit => exact ⟨hh, rfl, rfl, rfl, rfl⟩
  | note => exact ⟨hh, rfl, rfl, rfl, rfl⟩

theorem Run.untouched (h' : w.Run es hs' w') (h : origin.Run hs w.system) (ho : origin.IsFresh)
    (hd : w.system.state.isDisabled = true) (hh : w.heard = w.system.history.length) :
    w.Untouched es w' := by
  induction h' with
  | nil => exact ⟨hh, rfl, rfl, rfl, rfl⟩
  | @snoc es es' hs' hs'' u v h' hw ih =>
    have hstate := h.stays_disabled ho hd h'.system
    have hstep := untouched_step (h.trans h'.system) ho (hstate ▸ hd) ih.heard hw
    refine ⟨hstep.heard, hstep.engine.trans ih.engine, ?_, hstep.events.trans ih.events,
      hstep.counters.trans ih.counters⟩
    rw [hstep.store, ih.store, List.foldl_append]

end World

section tick

variable {α : Type} {w : World} (fired : Bool)

theorem play_updateStore (f : Bool → Client α) : (play fired (Client.updateStore >>= f)).run w =
    (play fired (f w.rescan.1)).run w.rescan.2 := rfl

theorem play_state (f : SessionState → Client α) : (play fired (Client.state >>= f)).run w =
    (play fired (f w.system.state)).run w := rfl

/-- A cycle of the watcher ends once it has looked at the source tree. -/
theorem tick_of_disabled (hd : w.system.state.isDisabled = true) (autoCommit : Bool) :
    (play fired (tick autoCommit)).run w =
      (.finished (some (match w.scan with
        | .ok _ => .inactive
        | .error _ => .scanFailed)), w.rescan.2) := by
  have hnone : w.rescan.2.system.state.session?.isNone = true := by
    have hsystem : w.rescan.2.system = w.system := by
      rw [World.rescan]
      split <;> rfl
    rw [hsystem]
    cases hs : w.system.state with
    | disabled reason => rfl
    | _ => simp [hs, SessionState.isDisabled] at hd
  rw [tick, play_updateStore]
  cases hscan : w.scan with
  | error e =>
    have hrescan : w.rescan.1 = false := by simp [World.rescan, hscan]
    rw [hrescan]
    rfl
  | ok findings =>
    have hrescan : w.rescan.1 = true := by simp [World.rescan, hscan]
    simp only [hrescan, Bool.not_true, Bool.false_eq_true, if_false]
    rw [play_state, if_pos hnone]
    rfl

end tick

/-- What is left of the coordinator once hot reload is off. -/
structure Inert (reason : DisableReason) (w : World) (es : List StoreEdit) (hs : List Happening)
    (w' : World) : Prop where
  state : w'.system.state = .disabled reason
  calls (i : Nat) (call : Call) : .called i call ∉ hs
  /-- A request that had not begun before writes and tells nothing. -/
  answers {i : Nat} {c : Completion} (hu : w.system.Unbegun i) (hc : .replied i c ∈ hs) :
    c.before = .disabled reason ∧ c.after = .disabled reason ∧ c.effects = [] ∧
      (c.reply = c.request.offReply ∨
        c.reply = .cancelled ∧ c.request.takesGate = true ∧ w'.system.hasFired i = true)
  /-- A turn is the end of its request. -/
  turns {earlier later : List Happening} {i : Nat} {r : Request} {found : SessionState}
    (h : hs = earlier ++ .began i r found :: later) : ∃ rest, later =
      .replied i ⟨r, r.offReply, .disabled reason, .disabled reason, []⟩ :: rest
  /-- Whoever waits can be answered. -/
  ends {i : Nat} {t : Task} (ht : w'.system.task? i = some t) (hw : t.position = .waiting) :
    ∃ hs' sys', w'.system.Run hs' sys' ∧ sys'.reply? i =
      some (if t.request.takesGate && t.fired then .cancelled else t.request.offReply)
  /-- If no request was under way before, nothing is told at all. -/
  told (hn : ∀ i t, w.system.task? i = some t → t.position = .waiting ∨ t.position.IsOver) :
    w'.system.history = w.system.history
  untouched (hh : w.heard = w.system.history.length) : w.Untouched es w'
  ticks (v : World) (hv : v.system = w'.system) (fired autoCommit : Bool) :
    (play fired (tick autoCommit)).run v =
      (.finished (some (match v.scan with
        | .ok _ => .inactive
        | .error _ => .scanFailed)), v.rescan.2)

/-- Once hot reload is off it stays off, whoever asks for whatever and whoever edits the store. -/
theorem disabled_is_inert {origin : System} {w w' : World} {es : List StoreEdit}
    {hs hs' : List Happening} {reason : DisableReason} (h : origin.Run hs w.system)
    (ho : origin.IsFresh) (hd : w.system.state = .disabled reason) (h' : w.Run es hs' w') :
    Inert reason w es hs' w' := by
  have hoff : w.system.state.isDisabled = true := by
    rw [hd]
    rfl
  have hstate := h.stays_disabled ho hoff h'.system
  have hoff' : w'.system.state.isDisabled = true := hstate ▸ hoff
  have hall := h.trans h'.system
  constructor
  case state => exact hstate.trans hd
  case calls => exact h.calls_nothing ho hoff h'.system
  case answers =>
    intro i c hu hc
    exact hd ▸ h.answers_off ho hoff h'.system hu hc
  case turns =>
    rintro earlier later i r found rfl
    have hfound : found = .disabled reason := by
      obtain ⟨u, t, rest, hrun, -, -, -, rfl, -⟩ := h'.system.cut_turn
      exact (h.stays_disabled ho hoff hrun).trans hd
    subst hfound
    obtain ⟨rest, hlater, -⟩ := h'.system.begun_disabled rfl
    exact ⟨rest, hlater⟩
  case ends =>
    intro i t ht hw
    exact hall.ends_of_waiting ho hoff' ht hw
  case told =>
    intro hn
    have htold : toldBy hs' = [] := by
      refine List.flatMap_eq_nil_iff.mpr fun e he => ?_
      cases e with
      | replied i c =>
        have hu : w.system.Unbegun i := by
          intro t ht
          refine (hn i t ht).resolve_right fun hover => ?_
          exact h'.system.silent ht hover _ he rfl
        exact (h.answers_off ho hoff h'.system hu he).2.2.1
      | _ => rfl
    rw [h'.system.accounted.history, htold, List.append_nil]
  case untouched =>
    intro hh
    exact h'.untouched h ho hoff hh
  case ticks =>
    intro v hv fired autoCommit
    exact tick_of_disabled fired (hv ▸ hoff') autoCommit

theorem disabled_stays_through_edit : ∃ w es hs w', World.Run w es hs w' ∧ es = [.clear] ∧
    w'.system.reply? 0 = some (.updates {}) ∧
      Inert ⟨.commitUpdates, "no pending update"⟩ w es hs w' := by
  let origin : System :=
    { settings := {}, state := .disabled ⟨.commitUpdates, "no pending update"⟩ }
  let w : World := { World.blank with system := origin }
  have issued : w.Run [] _ _ := World.Run.nil.snoc (.move (.issue .getUpdates false) (by simp))
  have edited := issued.snoc (.edit .clear)
  have admitted := edited.snoc (.move (.approach (i := 0) rfl rfl rfl) (by simp))
  have answered := admitted.snoc
    (.move (.arrive (i := 0) rfl (.turn rfl fun _ => rfl)) (by simp))
  have fresh : origin.Run [] w.system := .nil
  exact ⟨w, _, _, _, answered, rfl, rfl, disabled_is_inert fresh ⟨rfl, rfl, rfl⟩ rfl answered⟩

end LiveEdit.Kernel
