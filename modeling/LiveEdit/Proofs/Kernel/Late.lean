import LiveEdit.Proofs.Kernel.Play
import LiveEdit.Proofs.Kernel.Serving
import LiveEdit.Proofs.Session.Serial

/-! An engine that does its work at once, but answers late: perhaps when nobody waits any more. -/
namespace LiveEdit.Kernel

/-- A world whose engine may hold back an answer. The gate lets one task at a time call it. -/
structure LateWorld extends World where
  /-- The answer that is held back, and the task that waits for it. -/
  owed : Option (Nat × Answered) := none

namespace LateWorld

/-- A step, with the answer that it loses and the session at that time, if there is one. -/
inductive Step (w : LateWorld) : List (SessionState × Answered) → List Happening → LateWorld → Prop
  | move {m : Move} {sys : System} (hm : w.system.Step m sys) (ha : ∀ i a, m ≠ .answer i a)
      (hl : ∀ i a, w.owed = some (i, a) → m ≠ .giveUp i ∧ m ≠ .drop i) :
    Step w [] (m.happenings w.system sys) ⟨w.step fun _ => sys, w.owed⟩
  /-- The task that waits for the engine gives up, or nobody waits for the task. -/
  | lose {i : Nat} {a : Answered} {m : Move} {sys : System} (hm : w.system.Step m sys)
      (ho : w.owed = some (i, a)) (hl : m = .giveUp i ∨ m = .drop i) :
    Step w [(w.system.state, a)] (m.happenings w.system sys) ⟨w.step fun _ => sys, none⟩
  /-- The store answers at once. -/
  | fetch {i : Nat} {sys : System}
      (hm : w.system.Step (.answer i ⟨.currentSnapshot, (w.perform .currentSnapshot).1⟩) sys) :
    Step w []
      ((Move.answer i ⟨.currentSnapshot, (w.perform .currentSnapshot).1⟩).happenings w.system sys)
      ⟨(w.perform .currentSnapshot).2.step fun _ => sys, w.owed⟩
  /-- The engine does its work, and holds back the answer. -/
  | work {i : Nat} {t : Task} {d : Discipline} {call : Call}
      {resume : Except Fault call.Answer → Plan} (ht : w.system.task? i = some t)
      (hp : t.position = .inCall d call resume) (hc : call.asksEngine = true)
      (ho : w.owed = none) :
    Step w [] [] ⟨(w.perform call).2, some (i, ⟨call, (w.perform call).1⟩)⟩
  | answer {i : Nat} {a : Answered} {sys : System} (hm : w.system.Step (.answer i a) sys)
      (ho : w.owed = some (i, a)) :
    Step w [] ((Move.answer i a).happenings w.system sys) ⟨w.step fun _ => sys, none⟩
  | edit (e : StoreEdit) : Step w [] [] { w with store := e.apply w.store }

/-- A run from a world in which nothing is owed, with the lost answers and the log. -/
inductive Run (origin : World) :
    List (SessionState × Answered) → List Happening → LateWorld → Prop
  | nil : Run origin [] [] ⟨origin, none⟩
  | snoc {lost lost' : List (SessionState × Answered)} {hs hs' : List Happening}
      {w w' : LateWorld} (h : Run origin lost hs w) (hw : w.Step lost' hs' w') :
    Run origin (lost ++ lost') (hs ++ hs') w'

theorem Run.on {origin : World} {lost : List (SessionState × Answered)} {hs hs' : List Happening}
    {w w' : LateWorld} (h : Run origin lost hs w) (hw : w.Step [] hs' w') :
    Run origin lost (hs ++ hs') w' :=
  List.append_nil lost ▸ h.snoc hw

/-- The world hears nothing of the last step. -/
theorem Run.quiet {origin w : World} {lost : List (SessionState × Answered)} {hs : List Happening}
    {sys : System} {owed : Option (Nat × Answered)}
    (h : Run origin lost hs ⟨w.step fun _ => sys, owed⟩) (hh : sys.history.length = w.heard) :
    Run origin lost hs ⟨{ w with system := sys }, owed⟩ := World.step_quiet hh ▸ h

theorem Run.goOn {origin : World} {lost : List (SessionState × Answered)} {hs : List Happening}
    {w : LateWorld} {m : Move} {sys : System} (h : Run origin lost hs w) (hm : w.system.Step m sys)
    (hg : m.callsGoOn = true) (hh : sys.history.length = w.heard) :
    Run origin lost (hs ++ m.happenings w.system sys)
      ⟨{ w.toWorld with system := sys }, w.owed⟩ := by
  refine (h.on (.move hm ?_ fun i a _ => ⟨?_, ?_⟩)).quiet hh
  · rintro i a rfl
    cases hg
  · rintro rfl
    cases hg
  · rintro rfl
    cases hg

theorem Run.takesTurn {origin : World} {lost : List (SessionState × Answered)} {hs : List Happening}
    {w : LateWorld} (h : Run origin lost hs w) (r : Request) (hg : r.takesGate = true)
    (hgate : w.system.gate = {}) (hquiet : (w.system.turn r).history = w.system.history)
    (hh : w.system.history.length = w.heard) :
    ∃ hs', Run origin lost (hs ++ hs') ⟨{ w.toWorld with system := w.system.turn r }, w.owed⟩ := by
  refine System.turn_of_moves
    (P := fun sys => ∃ hs', Run origin lost (hs ++ hs') ⟨{ w.toWorld with system := sys }, w.owed⟩)
    ⟨[], (List.append_nil hs).symm ▸ h⟩ hg hgate hquiet ?_
  rintro u v m ⟨hs', hu⟩ hm hgo hv
  exact ⟨_, List.append_assoc .. ▸ hu.goOn hm hgo (hv ▸ hh)⟩

/-- A request that has the engine work on the current snapshot waits for the engine's answer. -/
theorem Run.reachesEngine {origin : World} {lost : List (SessionState × Answered)}
    {hs : List Happening} {w : LateWorld} {i : Nat} {d d' : Discipline} {call : Call}
    {resume : Except Fault Snapshot → Plan} {resume' : Except Fault call.Answer → Plan}
    (h : Run origin lost hs w) (r : Request) (hg : r.takesGate = true)
    (hgate : w.system.gate = {}) (hquiet : (w.system.turn r).history = w.system.history)
    (hh : w.system.history.length = w.heard) (howed : w.owed = none)
    (ht : (w.system.turn r).task? i = some ⟨r, false, .inCall d .currentSnapshot resume⟩)
    (hplan : resume (({ w.toWorld with system := w.system.turn r } : World).perform
      .currentSnapshot).1 = .await d' call resume')
    (hc : call.asksEngine = true) :
    let u := { w.toWorld with
      system := (w.system.turn r).setPosition i (.inCall d' call resume') }
    ∃ hs', Run origin lost (hs ++ hs')
      ⟨(u.perform call).2, some (i, ⟨call, (u.perform call).1⟩)⟩ := by
  intro u
  obtain ⟨_, begun⟩ := h.takesTurn r hg hgate hquiet hh
  have hcalls : (w.system.turn r).arrive i (.await d' call resume') = u.system := by
    rw [System.arrive, if_neg (by simp [System.hasFired_eq ht])]
  have fetched := begun.on (.fetch (.arrive ht (.answer rfl _)))
  rw [hplan, hcalls, World.perform_currentSnapshot] at fetched
  have waits : Run origin lost _ ⟨u, w.owed⟩ := fetched.quiet (hquiet ▸ hh)
  have worked := waits.on (.work (System.task?_setPosition_self ht) rfl hc howed)
  rw [List.append_nil, List.append_assoc] at worked
  exact ⟨_, worked⟩

/-- The coordinator makes a run of its own. -/
theorem Run.system {origin : World} {lost : List (SessionState × Answered)} {hs : List Happening}
    {w : LateWorld} (h : Run origin lost hs w) : origin.system.Run hs w.system := by
  induction h with
  | nil => exact .nil
  | snoc h hw ih =>
    cases hw with
    | move hm => exact World.step_system _ ▸ ih.snoc hm
    | lose hm => exact World.step_system _ ▸ ih.snoc hm
    | fetch hm => exact World.step_system _ ▸ ih.snoc hm
    | work => exact (List.append_nil _).symm ▸ (World.perform_system _).symm ▸ ih
    | answer hm => exact World.step_system _ ▸ ih.snoc hm
    | edit => exact (List.append_nil _).symm ▸ ih

theorem Run.provided {origin : World} {lost : List (SessionState × Answered)}
    {hs : List Happening} {w : LateWorld} (h : Run origin lost hs w) (hp : origin.provided = none) :
    w.provided = none := by
  induction h with
  | nil => exact hp
  | snoc h hw ih =>
    cases hw with
    | move => exact (World.step_provided _).trans ih
    | lose => exact (World.step_provided _).trans ih
    | fetch => exact (World.step_provided _).trans ((World.perform_provided _).trans ih)
    | work => exact (World.perform_provided _).trans ih
    | answer => exact (World.step_provided _).trans ih
    | edit => exact ih

end LateWorld

/--
No later commit can tell that the answer was lost: it opened no session, and it is no ready update
to another version than the pending one.
-/
def Harmless (s : SessionState) : Answered → Prop
  | ⟨.startSession _ _, _⟩ => False
  | ⟨.compute _ _ latest, .ok update⟩ => update.status = .ready → ∀ session pending,
    s = .active session → session.pending = some pending → latest.version = pending.version
  | _ => True

/-- The engine's session is the coordinator's, and an update that waits in both is the same. -/
structure Fits (e : EngineSession) (session : ActiveSession) : Prop where
  id : e.id = session.engine
  version {version : Nat} {pending : Snapshot} (hv : e.tentative = some version)
    (hp : session.pending = some pending) : version = pending.version

/-- The engine has the coordinator's session, if any, and else none. -/
def Near (engine : ChecksumEngine) : SessionState → Prop
  | .noSession => engine.sessions = []
  | .active session => engine.sessions = [] ∨ ∃ e, engine.sessions = [e] ∧ Fits e session
  | .disabled _ => engine.sessions.length ≤ 1

/-- The engine takes the process to run what the session has committed. -/
def Runs (engine : ChecksumEngine) (session : ActiveSession) : Prop :=
  ∃ e, engine.sessions = [e] ∧ e.id = session.engine ∧ e.baseline = session.committed.version

/-- A commit that worked, and left a session, left the engine in step with it. -/
def Promoted (engine : ChecksumEngine) (c : Completion) : Prop :=
  c.request = .commit → c.reply = .done → ∀ session, c.after = .active session → Runs engine session

/-- The engine is near the session wherever a plan is called off, if no harm comes of the answer
that is lost there, and wherever the plan ends. -/
def Survives (r : Request) (s : SessionState) : Plan → ChecksumEngine → Prop
  | .conclude f, engine => Near engine (f s).state ∧
    Promoted engine ⟨r, (f s).reply, s, (f s).state, (f s).effects⟩
  | .await _ call resume, engine => Near engine s ∧ ∀ c : Collaborators, Near c.engine s →
    (Harmless s ⟨call, (c.perform call).1⟩ → Near (c.perform call).2.engine s) ∧
    Survives r s (resume (c.perform call).1) (c.perform call).2.engine

/-- A call that someone is in goes well, even if nobody waits for its answer in the end. -/
def Serves (r : Request) (s : SessionState) (call : Call)
    (resume : Except Fault call.Answer → Plan) : Prop :=
  ∀ c : Collaborators, Near c.engine s →
    (Harmless s ⟨call, (c.perform call).1⟩ → Near (c.perform call).2.engine s) ∧
    Survives r s (resume (c.perform call).1) (c.perform call).2.engine

variable {r : Request} {s : SessionState} {engine : ChecksumEngine} {c : Collaborators}
  {session : ActiveSession}

theorem length_of_near (h : Near engine s) : engine.sessions.length ≤ 1 := by
  cases s with
  | noSession => simp [show engine.sessions = [] from h]
  | active session =>
    rcases h with h | ⟨e, h, -⟩
    · simp [h]
    · simp [h]
  | disabled => exact h

theorem fits_of_none {e : EngineSession} (hid : e.id = session.engine) (ht : e.tentative = none) :
    Fits e session :=
  ⟨hid, fun hv => by cases ht.symm.trans hv⟩

theorem promoted_of_ne {reply : Reply} {before after : SessionState} {effects : List Effect}
    (h : r ≠ .commit) : Promoted engine ⟨r, reply, before, after, effects⟩ :=
  fun hr => absurd hr h

theorem survives_disable {operation : Operation} {fault : Fault} {reply : Reply}
    {extra : List Effect} (h : Near engine s) :
    Survives r s (.disable operation fault reply extra) engine :=
  ⟨length_of_near h, fun _ _ _ hs => by cases hs⟩

/-- A call to a session fails, if the engine has lost it, or finds it. -/
theorem answered_session {α : Type} (h : Near c.engine (.active session))
    (act : EngineSession → Except EngineError α × ChecksumEngine) :
    (∃ fault, c.answered (c.engine.withSession session.engine act) = (.error fault, c)) ∨
    ∃ e, c.engine.sessions = [e] ∧ Fits e session ∧
      c.answered (c.engine.withSession session.engine act) = c.answered (act e) := by
  rcases h with h | ⟨e, h, hfits⟩
  · have hs : c.engine.session? session.engine = none := by simp [ChecksumEngine.session?, h]
    rw [ChecksumEngine.withSession, hs]
    exact .inl ⟨_, rfl⟩
  · exact .inr ⟨e, h, hfits, by rw [← hfits.id, withSession_of_single h]⟩

/-- A plan waits for a call that fails and changes nothing, or leads to a plan that survives. -/
theorem survives_await {operation : Operation} {d : Discipline} {call : Call} {reply : Reply}
    {next : call.Answer → Plan} (h : Near engine s)
    (hcall : ∀ c : Collaborators, Near c.engine s →
      (∃ fault, c.perform call = (.error fault, c)) ∨
      ∃ a c', c.perform call = (.ok a, c') ∧
        (Harmless s ⟨call, .ok a⟩ → Near c'.engine s) ∧ Survives r s (next a) c'.engine) :
    Survives r s (.awaitOrDisable operation d call reply next) engine := by
  refine ⟨h, fun c hc => ?_⟩
  rcases hcall c hc with ⟨fault, hperf⟩ | ⟨a, c', hperf, hlost, hnext⟩
  · rw [hperf]
    exact ⟨fun _ => hc, survives_disable hc⟩
  · rw [hperf]
    exact ⟨hlost, hnext⟩

theorem survives_start {settings : SessionSettings} (h : Near engine s) :
    Survives .start s (s.startPlan settings) engine := by
  cases s with
  | noSession =>
    refine survives_await h fun c hc => .inr ⟨_, c, rfl, fun _ => hc, ?_⟩
    refine survives_await hc fun c' hc' =>
      .inr ⟨_, _, rfl, False.elim, ?_, promoted_of_ne (by decide)⟩
    have hs : (c'.engine.start c.store.current settings.reportDiagnostics).2.sessions =
        [⟨⟨c'.engine.opened + 1⟩, c.store.current.version, none, none,
          settings.reportDiagnostics⟩] := by
      simp [ChecksumEngine.start, show c'.engine.sessions = [] from hc']
    exact .inr ⟨_, hs, fits_of_none rfl rfl⟩
  | _ => exact ⟨h, promoted_of_ne (by decide)⟩

theorem survives_break {inBreak : Option Bool} (hb : r.break? = some inBreak) (h : Near engine s) :
    Survives r s (s.breakPlan r.operation inBreak) engine := by
  have hr : r ≠ .commit := by
    rintro rfl
    cases hb
  cases s with
  | active session =>
    refine survives_await h fun c hc => ?_
    rcases answered_session hc _ with hfault | ⟨e, he, hfits, hperf⟩
    · exact .inl hfault
    · have told : (c.engine.put { e with inBreak := inBreak <|> e.inBreak }).sessions =
          [{ e with inBreak := inBreak <|> e.inBreak }] := sessions_put he rfl
      exact .inr ⟨_, _, hperf, fun _ => .inr ⟨_, told, hfits.id, hfits.version⟩,
        .inr ⟨_, told, hfits.id, hfits.version⟩, promoted_of_ne hr⟩
  | _ => exact ⟨h, promoted_of_ne hr⟩

/-- A ready update is tentative, and pending too unless its answer is lost. -/
theorem survives_getUpdates (h : Near engine s) :
    Survives .getUpdates s s.getUpdatesPlan engine := by
  cases s with
  | active session =>
    refine survives_await h fun c₁ h₁ => .inr ⟨_, c₁, rfl, fun _ => h₁, h₁, fun c hc => ?_⟩
    let latest := c₁.store.current
    let update (e : EngineSession) := updateOf c.engine.marker e.reportDiagnostics
      (session.committed.documents.changesTo latest.documents)
    rcases answered_session hc fun e => (.ok (update e), if (update e).status = .ready then
        c.engine.put { e with tentative := some latest.version } else c.engine) with
      ⟨fault, hperf⟩ | ⟨e, he, hfits, hperf⟩
    · rw [show c.perform (.compute session.engine session.committed latest) =
        (.error fault, c) from hperf]
      exact ⟨fun _ => hc, survives_disable hc⟩
    · rw [show c.perform (.compute session.engine session.committed latest) = _ from hperf]
      by_cases hready : (update e).status = .ready
      · have computed : (c.engine.put { e with tentative := some latest.version }).sessions =
            [{ e with tentative := some latest.version }] := sessions_put he rfl
        simp only [if_pos hready]
        refine ⟨fun hlost => .inr ⟨_, computed, hfits.id, ?_⟩, ?_, promoted_of_ne (by decide)⟩
        · rintro _ pending ⟨⟩ hp
          exact hlost hready session pending rfl hp
        · simp only [if_pos hready]
          refine .inr ⟨_, computed, hfits.id, ?_⟩
          rintro _ _ ⟨⟩ ⟨⟩
          rfl
      · simp only [if_neg hready]
        refine ⟨fun _ => hc, ?_, promoted_of_ne (by decide)⟩
        simp only [if_neg hready]
        exact hc
  | _ => exact ⟨h, promoted_of_ne (by decide)⟩

theorem survives_commit (h : Near engine s) : Survives .commit s s.commitPlan engine := by
  cases s with
  | noSession => exact survives_disable h
  | active session =>
    rw [SessionState.commitPlan]
    cases hp : session.pending with
    | none => exact survives_disable h
    | some pending =>
      refine survives_await h fun c hc => ?_
      rcases answered_session hc _ with hfault | ⟨e, he, hfits, hperf⟩
      · exact .inl hfault
      · cases hv : e.tentative with
        | none =>
          simp only [hv] at hperf
          exact .inl ⟨_, hperf⟩
        | some version =>
          simp only [hv] at hperf
          have hversion := hfits.version hv hp
          have promoted :
              (c.engine.put { e with baseline := version, tentative := none }).sessions =
                [{ e with baseline := version, tentative := none }] := sessions_put he rfl
          refine .inr ⟨_, _, hperf, fun _ => .inr ⟨_, promoted, fits_of_none hfits.id rfl⟩,
            .inr ⟨_, promoted, fits_of_none hfits.id rfl⟩, ?_⟩
          rintro - - _ ⟨⟩
          exact ⟨_, promoted, hfits.id, by simp [hp, hversion]⟩
  | disabled reason => exact ⟨h, fun _ _ _ hs => by cases hs⟩

theorem survives_discard (h : Near engine s) : Survives .discard s s.discardPlan engine := by
  cases s with
  | noSession => exact survives_disable h
  | active session =>
    rw [SessionState.discardPlan]
    cases hp : session.pending with
    | none => exact survives_disable h
    | some pending =>
      refine survives_await h fun c hc => ?_
      rcases answered_session hc _ with hfault | ⟨e, he, hfits, hperf⟩
      · exact .inl hfault
      · cases hv : e.tentative with
        | none =>
          simp only [hv] at hperf
          exact .inl ⟨_, hperf⟩
        | some version =>
          simp only [hv] at hperf
          have discarded : (c.engine.put { e with tentative := none }).sessions =
              [{ e with tentative := none }] := sessions_put he rfl
          exact .inr ⟨_, _, hperf, fun _ => .inr ⟨_, discarded, fits_of_none hfits.id rfl⟩,
            .inr ⟨_, discarded, fits_of_none hfits.id rfl⟩, promoted_of_ne (by decide)⟩
  | disabled reason => exact ⟨h, promoted_of_ne (by decide)⟩

theorem survives_finish (h : Near engine s) : Survives .finish s s.finishPlan engine := by
  cases s with
  | active session =>
    refine survives_await h fun c hc => ?_
    rcases answered_session hc _ with hfault | ⟨e, he, hfits, hperf⟩
    · exact .inl hfault
    · have closed : (c.engine.sessions.filter (·.id ≠ session.engine)) = [] := by
        simp [he, hfits.id]
      exact .inr ⟨_, _, hperf, fun _ => .inl closed, closed, promoted_of_ne (by decide)⟩
  | _ => exact ⟨h, promoted_of_ne (by decide)⟩

theorem survives_plan {settings : SessionSettings} (hg : r.takesGate = true) (h : Near engine s) :
    Survives r s (r.plan settings s) engine := by
  cases r with
  | start => exact survives_start h
  | enterBreak => exact survives_break rfl h
  | exitBreak => exact survives_break rfl h
  | capabilitiesChanged => exact survives_break rfl h
  | hasChanges scope => cases hg
  | getUpdates => exact survives_getUpdates h
  | commit => exact survives_commit h
  | discard => exact survives_discard h
  | finish => exact survives_finish h

end LiveEdit.Kernel
