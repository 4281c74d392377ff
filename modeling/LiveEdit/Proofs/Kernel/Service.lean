import LiveEdit.Proofs.Kernel.Agreement
import LiveEdit.Proofs.Kernel.Play
import LiveEdit.Proofs.Source.Detection

/-!
What a request comes to once it has its turn, if its token does not fire and nobody edits the
store meanwhile.
-/
namespace LiveEdit.Kernel

/-- Performs the calls of a plan one after the other, up to its conclusion. -/
def carry (s : SessionState) : Plan → Collaborators → Conclusion × Collaborators
  | .conclude f, c => (f s, c)
  | .await _ call resume, c => carry s (resume (c.perform call).1) (c.perform call).2

/-- The collaborators differ at most in what can be found by identity. -/
structure Collaborators.Alike (c c' : Collaborators) : Prop where
  engine : c'.engine = c.engine
  current : c'.store.current = c.store.current

variable {c c' c'' : Collaborators} {s : SessionState} {r : Request} {p : Plan} {k : Conclusion}
  {settings : SessionSettings} {b : Bool} {marker : Option String} {current : Snapshot}

theorem alike_refl (c : Collaborators) : c.Alike c := ⟨rfl, rfl⟩

theorem Collaborators.Alike.trans (h : c.Alike c') (h' : c'.Alike c'') : c.Alike c'' :=
  ⟨h'.engine.trans h.engine, h'.current.trans h.current⟩

theorem perform_alike (h : c.Alike c') (call : Call) :
    (c'.perform call).1 = (c.perform call).1 ∧ (c.perform call).2.Alike (c'.perform call).2 := by
  obtain ⟨store, engine⟩ := c
  obtain ⟨store', engine'⟩ := c'
  obtain ⟨hengine, hcurrent⟩ := h
  simp only at hengine hcurrent
  subst hengine
  cases call with
  | currentSnapshot => exact ⟨congrArg Except.ok hcurrent, rfl, hcurrent⟩
  | _ => exact ⟨rfl, rfl, hcurrent⟩

theorem carry_alike (h : c.Alike c') :
    (carry s p c').1 = (carry s p c).1 ∧ (carry s p c).2.Alike (carry s p c').2 := by
  induction p generalizing c c' with
  | conclude f => exact ⟨rfl, h⟩
  | await d call resume ih =>
    obtain ⟨hanswer, hafter⟩ := perform_alike h call
    simp only [carry, hanswer]
    exact ih _ hafter

/-- The ledger of what no request changes, next to the agreement with the engine. -/
def service (b : Bool) (marker : Option String) (current : Snapshot) : Ledger Unit where
  note _ _ := ()
  Holds _ s c := Agrees b c.engine s ∧ c.engine.marker = marker ∧ c.store.current = current

theorem service_kept : (service b marker current).KeptByServing b where
  agrees h := h.1
  served h _ hc := ⟨hc.agrees, hc.marker.trans h.2.1, hc.store ▸ h.2.2⟩

/-- What a plan keeps, it keeps when its calls are performed one after the other. -/
theorem Ledger.Keeps.carry {γ : Type} {L : Ledger γ} {g : γ} (h : L.Keeps r g s p c) :
    L.Holds (L.note g ⟨r, (carry s p c).1.reply, s, (carry s p c).1.state,
      (carry s p c).1.effects⟩) (carry s p c).1.state (carry s p c).2 := by
  induction p generalizing c with
  | conclude f => exact h
  | await d call resume ih =>
    obtain ⟨hnow, hcalls⟩ := h
    obtain ⟨a, ha, hrest⟩ := hcalls c hnow
    simp only [Kernel.carry, ha]
    exact ih _ hrest

/-- A request with the gate leaves the collaborators in agreement with the session. -/
theorem carry_agrees (hg : r.takesGate = true)
    (ha : Agrees settings.reportDiagnostics c.engine s) :
    Agrees settings.reportDiagnostics (carry s (r.plan settings s) c).2.engine
        (carry s (r.plan settings s) c).1.state ∧
      (carry s (r.plan settings s) c).2.engine.marker = c.engine.marker ∧
      (carry s (r.plan settings s) c).2.store.current = c.store.current := by
  have hnow : (service settings.reportDiagnostics c.engine.marker c.store.current).Holds () s c :=
    ⟨ha, rfl, rfl⟩
  exact (Ledger.keeps_plan service_kept hg hnow).carry

/-- A call that succeeds is followed by the rest of its plan. -/
theorem carry_of_ok {operation : Operation} {d : Discipline} {call : Call} {reply : Reply}
    {next : call.Answer → Plan} {a : call.Answer} (h : c.perform call = (.ok a, c')) :
    carry s (.awaitOrDisable operation d call reply next) c = carry s (next a) c' := by
  simp [carry, Plan.awaitOrDisable, h]

namespace World

variable {v w w' : World} {i : Nat} {t : Task}

/-- Nothing is scripted, no provider stands in for the store, and the engine agrees. -/
structure Sound (w : World) : Prop where
  script : w.script = []
  provided : w.provided = none
  agrees : Agrees w.system.settings.reportDiagnostics w.engine w.system.state

/-- What is left of a world where a task came to its conclusion. -/
structure Leaves (w : World) (i : Nat) (s : SessionState) (c : Collaborators) (w' : World) :
    Prop where
  state : w'.system.state = s
  alike : c.Alike w'.toCollaborators
  script : w'.script = []
  provided : w'.provided = none
  settings : w'.system.settings = w.system.settings
  unfired : w'.system.hasFired i = false

theorem step_alike (f : System → System) : w.toCollaborators.Alike (w.step f).toCollaborators := by
  rcases step_collaborators (w := w) f with h | h <;> rw [h] <;> exact ⟨rfl, rfl⟩

/-- A new request whose token has not fired has its turn at once. -/
def served (w : World) (r : Request) : Option Reply × World :=
  (serve w.system.tasks.length (w.system.planOf r)).run (w.step (·.issue r false))

end World

open World

variable {w w' : World} {i : Nat} {t : Task}

/-- At the end of its plan a task is told what it comes to. -/
theorem serve_concludes (f : SessionState → Conclusion) (ht : w.system.task? i = some t)
    (hf : t.fired = false) (hscript : w.script = []) (hp : w.provided = none) :
    ∃ w', (serve i (.conclude f)).run w = (some (f w.system.state).reply, w') ∧
      w.Leaves i (f w.system.state).state w.toCollaborators w' ∧
      w'.system.gate = w.system.gate.leave i := by
  have hend : (w.step (·.arrive i (.conclude f))).system =
      w.system.conclude i (f w.system.state) := step_system _
  have hreply : (w.step (·.arrive i (.conclude f))).system.reply? i =
      some (f w.system.state).reply := by
    rw [hend]
    exact System.reply?_leave ht
  refine ⟨w.step (·.arrive i (.conclude f)), ?_, ?_, by rw [hend]; rfl⟩
  · unfold serve
    simp only [StateT.run_bind, StateT.run_modify, StateT.run_get, pure_bind, hreply,
      StateT.run_pure]
    rfl
  constructor
  case alike => exact step_alike _
  case script => rw [step_script, hscript]
  case provided => rw [step_provided, hp]
  case unfired =>
    rw [hend, System.hasFired_eq (System.task?_conclude.trans (System.task?_setPosition_self ht))]
    exact hf
  all_goals
    rw [hend]
    rfl

/-- A task whose token has not fired is served to the end of its plan. -/
theorem serve_carries (p : Plan) (ht : w.system.task? i = some t) (hf : t.fired = false)
    (hscript : w.script = []) (hp : w.provided = none) :
    ∃ w', (serve i p).run w = (some (carry w.system.state p w.toCollaborators).1.reply, w') ∧
      w.Leaves i (carry w.system.state p w.toCollaborators).1.state
        (carry w.system.state p w.toCollaborators).2 w' ∧
      w'.system.gate = w.system.gate.leave i := by
  induction p generalizing w t with
  | conclude f => exact serve_concludes f ht hf hscript hp
  | await d call resume ih =>
    have hcalls : (w.step (·.arrive i (.await d call resume))).system =
        w.system.setPosition i (.inCall d call resume) := by
      rw [step_system, System.arrive, System.hasFired_eq ht, hf]
      rfl
    have hcall := System.task?_setPosition_self (p := .inCall d call resume) ht
    have hreply : (w.step (·.arrive i (.await d call resume))).system.reply? i = none := by
      rw [hcalls]
      simp [System.reply?, hcall]
    have halike := step_alike (w := w) (·.arrive i (.await d call resume))
    have hscript' := (step_script (w := w) (·.arrive i (.await d call resume))).trans hscript
    have hp' := (step_provided (w := w) (·.arrive i (.await d call resume))).trans hp
    obtain ⟨v', hn, -, hscript'', hsys, hcollab, hp''⟩ := noteCall_eq hscript' call
    rw [serve_of_call hreply hn]
    generalize w.step (·.arrive i (.await d call resume)) = v at *
    obtain ⟨hanswer, hafter⟩ := perform_alike (hcollab ▸ halike) call
    rw [perform_eq (hp''.trans hp')]
    have hstate : v'.system.state = w.system.state := by
      rw [hsys, hcalls]
      rfl
    have hcall' : v'.system.task? i = some { t with position := .inCall d call resume } := by
      rw [hsys, hcalls, hcall]
    obtain ⟨w', hrun, hleaves, hgate⟩ := ih (v'.toCollaborators.perform call).1
      (w := { v' with toCollaborators := (v'.toCollaborators.perform call).2 })
      hcall' hf (hscript''.trans hscript') (hp''.trans hp')
    obtain ⟨hconclusion, hlast⟩ :=
      carry_alike (s := w.system.state) (p := resume (w.toCollaborators.perform call).1) hafter
    simp only [hstate, hanswer, hconclusion] at hrun hleaves hlast
    refine ⟨w', ?_, ⟨hleaves.state, hlast.trans hleaves.alike, hleaves.script, hleaves.provided,
      ?_, hleaves.unfired⟩, ?_⟩
    · rw [hanswer]
      exact hrun
    · rw [hleaves.settings, hsys, hcalls]
      rfl
    · rw [hgate, hsys, hcalls]
      rfl

namespace World

/-- What a request comes to if it has its turn now. -/
def outcome (w : World) (r : Request) : Conclusion :=
  (carry w.system.state (w.system.planOf r) w.toCollaborators).1

theorem outcome_hasChanges (w : World) (scope : Option String) :
    w.outcome (.hasChanges scope) =
      { reply := .changed (w.system.state.session?.any fun session =>
          session.committed.differsFrom w.store.current scope w.system.settings.detection)
        state := w.system.state } := by
  rw [outcome, System.planOf, Request.plan]
  cases w.system.state <;> rfl

/-- Requests are still answered, under the same settings and for the same current snapshot. -/
structure GoesOn (w w' : World) : Prop where
  sound : w'.Sound
  current : w'.store.current = w.store.current
  marker : w'.engine.marker = w.engine.marker
  settings : w'.system.settings = w.system.settings

theorem GoesOn.trans {u v w : World} (h : u.GoesOn v) (h' : v.GoesOn w) : u.GoesOn w :=
  ⟨h'.sound, h'.current.trans h.current, h'.marker.trans h.marker, h'.settings.trans h.settings⟩

/-- What is left of a world where a request came to what it comes to. -/
structure Answers (w : World) (r : Request) (w' : World) : Prop extends w.GoesOn w' where
  state : w'.system.state = (w.outcome r).state

/-- The calls of a request leave the collaborators in agreement with what it comes to. -/
theorem Sound.carried (h : w.Sound) (r : Request) :
    let c := (carry w.system.state (w.system.planOf r) w.toCollaborators).2
    Agrees w.system.settings.reportDiagnostics c.engine (w.outcome r).state ∧
      c.engine.marker = w.engine.marker ∧ c.store.current = w.store.current := by
  cases hg : r.takesGate with
  | true => exact carry_agrees hg h.agrees
  | false =>
    cases r with
    | hasChanges scope =>
      have hcarry : (carry w.system.state (w.system.planOf (.hasChanges scope))
          w.toCollaborators).2 = w.toCollaborators := by
        rw [System.planOf, Request.plan]
        cases w.system.state <;> rfl
      simp only [hcarry, outcome_hasChanges]
      exact ⟨h.agrees, trivial, trivial⟩
    | _ => cases hg

/-- A request that was served from its turn to its conclusion is answered. -/
theorem Sound.answers {v : World} (h : w.Sound) (hstate : v.system.state = w.system.state)
    (hsettings : v.system.settings = w.system.settings)
    (halike : w.toCollaborators.Alike v.toCollaborators)
    (hl : v.Leaves i (carry v.system.state (w.system.planOf r) v.toCollaborators).1.state
      (carry v.system.state (w.system.planOf r) v.toCollaborators).2 w') : w.Answers r w' := by
  obtain ⟨hsame, hafter⟩ :=
    carry_alike (s := w.system.state) (p := w.system.planOf r) halike
  rw [hstate, hsame] at hl
  have hlast := hafter.trans hl.alike
  obtain ⟨hagrees, hmarker, hcurrent⟩ := h.carried r
  have hs : w'.system.settings = w.system.settings := hl.settings.trans hsettings
  refine ⟨⟨⟨hl.script, hl.provided, ?_⟩, hlast.current.trans hcurrent, ?_, hs⟩, hl.state⟩
  · rw [hs, hl.state, hlast.engine]
    exact hagrees
  · rw [hlast.engine, hmarker]

/-- A request that has its turn is answered, whoever else is under way. -/
theorem Sound.served (h : w.Sound) (r : Request) :
    (w.served r).1 = some (w.outcome r).reply ∧ w.Answers r (w.served r).2 := by
  have hsystem : (w.step (·.issue r false)).system = w.system.issue r false := step_system _
  have hnew : (w.step (·.issue r false)).system.task? w.system.tasks.length =
      some ⟨r, false, .waiting⟩ := by
    rw [hsystem, System.task?_issue, if_pos rfl]
  have halike := step_alike (w := w) (·.issue r false)
  have hscript := (step_script (w := w) (·.issue r false)).trans h.script
  have hp := (step_provided (w := w) (·.issue r false)).trans h.provided
  rw [World.served]
  generalize w.step (·.issue r false) = v at *
  have hstate : v.system.state = w.system.state := by rw [hsystem]; rfl
  have hsettings : v.system.settings = w.system.settings := by rw [hsystem]; rfl
  obtain ⟨w', hrun, hleaves, -⟩ := serve_carries (w.system.planOf r) hnew rfl hscript hp
  have hrun' : (serve w.system.tasks.length (w.system.planOf r)).run v = _ := hrun
  obtain ⟨hsame, -⟩ := carry_alike (s := w.system.state) (p := w.system.planOf r) halike
  rw [hrun']
  refine ⟨?_, h.answers hstate hsettings halike hleaves⟩
  rw [hstate, hsame]
  rfl

end World

theorem gate_of_turn (i : Nat) : (Gate.join {} i).holder = some i ∧
    (Gate.join {} i).leave i = {} := by
  simp [Gate.join, Gate.leave]

/-- At a free gate a task gets its turn and is served. -/
theorem attend_carries (ht : w.system.task? i = some t) (hw : t.position = .waiting)
    (hf : t.fired = false) (hgate : w.system.gate = {}) (hscript : w.script = [])
    (hp : w.provided = none) :
    ∃ v w' : World, (attend i).run w = (some (carry v.system.state (w.system.planOf t.request)
        v.toCollaborators).1.reply, w') ∧
      v.system.state = w.system.state ∧ v.system.settings = w.system.settings ∧
      w.toCollaborators.Alike v.toCollaborators ∧
      v.Leaves i (carry v.system.state (w.system.planOf t.request) v.toCollaborators).1.state
        (carry v.system.state (w.system.planOf t.request) v.toCollaborators).2 w' ∧
      w'.system.gate = {} := by
  obtain ⟨r, fired, position⟩ := t
  simp only at hw hf
  subst hw hf
  unfold attend
  simp only [StateT.run_bind, StateT.run_get, pure_bind, ht]
  cases hg : r.takesGate with
  | false =>
    obtain ⟨w', hrun, hleaves, hend⟩ := serve_carries (w.system.planOf r) ht rfl hscript hp
    refine ⟨w, w', ?_, rfl, rfl, alike_refl _, hleaves, ?_⟩
    · simpa [hg] using hrun
    · simp [hend, hgate, Gate.leave]
  | true =>
    have hsystem : (w.step (·.approach i)).system =
        { w.system with gate := Gate.join {} i } := by
      rw [step_system, System.approach, System.hasFired_eq ht, hgate]
      rfl
    have ht' : (w.step (·.approach i)).system.task? i = some ⟨r, false, .waiting⟩ := by
      rw [hsystem]
      exact ht
    have hreply : (w.step (·.approach i)).system.reply? i = none := by
      rw [System.reply?, ht']
    obtain ⟨w', hrun, hleaves, hend⟩ := serve_carries (w.system.planOf r) ht' rfl
      ((step_script _).trans hscript) ((step_provided _).trans hp)
    refine ⟨_, w', ?_, ?_, ?_, step_alike _, hleaves, ?_⟩
    · have hturn : (w.step (·.approach i)).system.gate.holder = some i := by
        rw [hsystem]
        exact (gate_of_turn i).1
      have hplan : (w.step (·.approach i)).system.planOf r = w.system.planOf r := by
        rw [hsystem]
        rfl
      simp only [if_true, StateT.run_bind, StateT.run_modify, StateT.run_get, pure_bind, hreply,
        hturn, hplan]
      exact hrun
    · rw [hsystem]
    · rw [hsystem]
    · rw [hend, hsystem]
      exact (gate_of_turn i).2

theorem play_of_attend {α : Type} {fired : Bool} {next : Reply → Client α} {reply : Reply}
    (hr : (attend w.system.tasks.length).run (w.step (·.issue r fired)) = (some reply, w')) :
    (play fired (.ask r next)).run w =
      (play (w'.system.hasFired w.system.tasks.length) (next reply)).run w' := by
  conv => lhs; unfold play
  simp only [StateT.run_bind, StateT.run_get, StateT.run_modify, pure_bind, hr]
  rfl

/-- At a free gate a client's request is answered, and the gate is free again. -/
theorem play_ask {α : Type} (h : w.Sound) (hgate : w.system.gate = {}) (r : Request)
    (next : Reply → Client α) : ∃ w',
      (play false (.ask r next)).run w = (play false (next (w.outcome r).reply)).run w' ∧
        w.Answers r w' ∧ w'.system.gate = {} := by
  have hsystem : (w.step (·.issue r false)).system = w.system.issue r false := step_system _
  have hnew : (w.step (·.issue r false)).system.task? w.system.tasks.length =
      some ⟨r, false, .waiting⟩ := by
    rw [hsystem, System.task?_issue, if_pos rfl]
  have halike := step_alike (w := w) (·.issue r false)
  have hscript := (step_script (w := w) (·.issue r false)).trans h.script
  have hp := (step_provided (w := w) (·.issue r false)).trans h.provided
  have hplay {reply : Reply} {w' : World} := @play_of_attend r w w' α false next reply
  generalize w.step (·.issue r false) = u at *
  have hstate : u.system.state = w.system.state := by rw [hsystem]; rfl
  have hsettings : u.system.settings = w.system.settings := by rw [hsystem]; rfl
  have hfree : u.system.gate = {} := by rw [hsystem]; exact hgate
  have hplan : u.system.planOf r = w.system.planOf r := by rw [hsystem]; rfl
  obtain ⟨v, w', hrun, hs, hset, halike', hleaves, hend⟩ :=
    attend_carries hnew rfl rfl hfree hscript hp
  simp only [hplan] at hrun hleaves
  have hboth := halike.trans halike'
  obtain ⟨hsame, -⟩ := carry_alike (s := w.system.state) (p := w.system.planOf r) hboth
  refine ⟨w', ?_, h.answers (hs.trans hstate) (hset.trans hsettings) hboth hleaves, hend⟩
  rw [hs.trans hstate, hsame] at hrun
  rw [hplay hrun, hleaves.unfired]
  rfl

theorem World.Run.script {origin : World} {es : List StoreEdit} {hs : List Happening}
    (h : origin.Run es hs w) (hscript : origin.script = []) : w.script = [] := by
  induction h with
  | nil => exact hscript
  | snoc h hw ih =>
    cases hw with
    | move => rw [step_script, ih]
    | answer => rw [step_script, perform_script, ih]
    | edit => exact ih
    | note => exact ih

/-- Without a script every run ends in a world where requests are answered. -/
theorem World.Run.sound {origin : World} {es : List StoreEdit} {hs : List Happening}
    (h : origin.Run es hs w) (ho : origin.IsFresh) (hscript : origin.script = []) : w.Sound where
  script := h.script hscript
  provided := h.provided ho.provided
  agrees := by
    have hL := agreement_sound origin.system.settings
    rw [h.system.settings]
    exact (Ledger.sustains_run hL ho (g := false) ⟨ho.sessions, rfl⟩ h fun _ _ => trivial).now.1

namespace World.Sound

variable {session : ActiveSession} {pending : Snapshot} {inBreak : Option Bool}
  (h : w.Sound) (hs : w.system.state = .active session)
include h hs

theorem sessions : w.engine.sessions =
    [engineSide session w.system.settings.reportDiagnostics] := by
  have hagrees := h.agrees
  rwa [hs] at hagrees

/-- In a session, updates lead from the committed snapshot to the store's. -/
theorem outcome_getUpdates :
    let u := updatesBetween w.engine.marker w.system.settings.reportDiagnostics session.committed
      w.store.current
    (w.outcome .getUpdates).reply = .updates u ∧
      (w.outcome .getUpdates).state = if u.status = .ready then
        .active { session with pending := some w.store.current } else .active session := by
  obtain ⟨c, hperform, -⟩ := perform_compute (h.sessions hs) w.store.current
  have hplan : w.system.planOf .getUpdates = (SessionState.active session).getUpdatesPlan :=
    congrArg SessionState.getUpdatesPlan hs
  have hcurrent : w.toCollaborators.perform .currentSnapshot =
    (.ok w.store.current, w.toCollaborators) := rfl
  rw [outcome, hplan, hs]
  simp only [SessionState.getUpdatesPlan, SessionState.session?, carry_of_ok hcurrent, carry,
    hperform]
  exact ⟨rfl, rfl⟩

/-- A notification is taken note of. -/
theorem outcome_break (hb : r.break? = some inBreak) :
    (w.outcome r).reply = .done ∧ (w.outcome r).state =
      .active { session with breakState := session.breakState.apply inBreak } := by
  obtain ⟨c, hperform, -⟩ := perform_break (h.sessions hs) inBreak
  have hplan : w.system.planOf r =
      (SessionState.active session).breakPlan r.operation inBreak := by
    cases r <;> cases hb <;> exact congrArg (SessionState.breakPlan _ _) hs
  rw [outcome, hplan, hs]
  simp only [SessionState.breakPlan, SessionState.session?, carry_of_ok hperform]
  exact ⟨rfl, rfl⟩

/-- What is pending is committed. -/
theorem outcome_commit (hp : session.pending = some pending) :
    (w.outcome .commit).reply = .done ∧ (w.outcome .commit).state =
      .active { session with committed := pending, pending := none } := by
  obtain ⟨c, hperform, -⟩ := perform_commit (h.sessions hs) hp
  have hplan : w.system.planOf .commit = (SessionState.active session).commitPlan :=
    congrArg SessionState.commitPlan hs
  rw [outcome, hplan, hs]
  simp only [SessionState.commitPlan, hp, carry_of_ok hperform]
  exact ⟨rfl, by simp [carry, SessionState.modifySession, hp]⟩

/-- What is pending is dropped. -/
theorem outcome_discard (hp : session.pending = some pending) :
    (w.outcome .discard).reply = .done ∧ (w.outcome .discard).state =
      .active { session with pending := none } := by
  obtain ⟨c, hperform, -⟩ := perform_discard (h.sessions hs) hp
  have hplan : w.system.planOf .discard = (SessionState.active session).discardPlan :=
    congrArg SessionState.discardPlan hs
  rw [outcome, hplan, hs]
  simp only [SessionState.discardPlan, hp, carry_of_ok hperform]
  exact ⟨rfl, rfl⟩

theorem outcome_finish : (w.outcome .finish).reply = .done ∧
    (w.outcome .finish).state = .noSession := by
  obtain ⟨c, hperform, -⟩ := perform_close (h.sessions hs)
  have hplan : w.system.planOf .finish = (SessionState.active session).finishPlan :=
    congrArg SessionState.finishPlan hs
  rw [outcome, hplan, hs]
  simp only [SessionState.finishPlan, SessionState.session?, carry_of_ok hperform]
  exact ⟨rfl, rfl⟩

end World.Sound

end LiveEdit.Kernel
