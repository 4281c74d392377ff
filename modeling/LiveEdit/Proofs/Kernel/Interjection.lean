import LiveEdit.Proofs.Kernel.Inert
import LiveEdit.Proofs.Kernel.Service

/-! A watcher's cycle while another client ends the session between two of its actions. -/
namespace LiveEdit

/-- Another client makes a request before an action of the client, or after its last one. -/
def Client.interject {α : Type} (r : Request) : Nat → Client α → Client α
  | 0, client => .ask r fun _ => client
  | _ + 1, .done a => .ask r fun _ => .done a
  | k + 1, .ask request next => .ask request fun reply => (next reply).interject r k
  | k + 1, .look next => .look fun s => (next s).interject r k
  | k + 1, .poll next => .poll fun fired => (next fired).interject r k
  | k + 1, .rescan next => .rescan fun ok => (next ok).interject r k
  | k + 1, .note diagnostics rest => .note diagnostics (rest.interject r k)

namespace Kernel

/-- Requests are answered, and nobody is at the gate. -/
structure World.AtRest (w : World) : Prop extends w.Sound where
  gate : w.system.gate = {}

/-- The client comes to an end with a result, in such a world. -/
def EndsIn {α : Type} (client : Client α) (w : World) (a : α) (P : World → Prop) : Prop :=
  ∃ w', (play false client).run w = (.finished a, w') ∧ P w'

/-- The client comes to an end with a result and leaves the session in a state. -/
def Ends {α : Type} (client : Client α) (w : World) (a : α) (s : SessionState) : Prop :=
  ∃ w', (play false client).run w = (.finished a, w') ∧ w'.system.state = s

section ends

variable {α : Type} {w : World} {a : α} {s : SessionState} {r : Request} {next : Reply → Client α}
  {P Q : World → Prop} {client : Client α}

theorem endsIn_done (h : P w) : EndsIn (.done a) w a P := ⟨w, rfl, h⟩

theorem EndsIn.imp (h : EndsIn client w a P) (himp : ∀ w', P w' → Q w') :
    EndsIn client w a Q := by
  obtain ⟨w', hrun, hw'⟩ := h
  exact ⟨w', hrun, himp w' hw'⟩

theorem endsIn_look {look : SessionState → Client α} (h : EndsIn (look w.system.state) w a P) :
    EndsIn (.look look) w a P := h

theorem endsIn_rescan {scanned : Bool → Client α}
    (h : EndsIn (scanned w.rescan.1) w.rescan.2 a P) : EndsIn (.rescan scanned) w a P := h

theorem endsIn_note {diagnostics : List Diagnostic} {rest : Client α}
    (h : EndsIn rest { w with record := { w.record with
      noted := w.record.noted ++ diagnostics } } a P) : EndsIn (.note diagnostics rest) w a P := h

theorem endsIn_ask (h : w.AtRest) (hnext : ∀ w', w'.AtRest → w.Answers r w' →
    EndsIn (next (w.outcome r).reply) w' a P) : EndsIn (.ask r next) w a P := by
  obtain ⟨v, hrun, hanswers, hgate⟩ := play_ask h.toSound h.gate r next
  obtain ⟨w', hend, hw'⟩ := hnext v ⟨hanswers.sound, hgate⟩ hanswers
  exact ⟨w', hrun.trans hend, hw'⟩

theorem ends_done (hs : w.system.state = s) : Ends (.done a) w a s := endsIn_done hs

theorem ends_note {diagnostics : List Diagnostic} {rest : Client α}
    (h : Ends rest { w with record := { w.record with
      noted := w.record.noted ++ diagnostics } } a s) : Ends (.note diagnostics rest) w a s :=
  endsIn_note h

theorem ends_ask (h : w.AtRest) (hnext : ∀ w', w'.AtRest → w.Answers r w' →
    Ends (next (w.outcome r).reply) w' a s) : Ends (.ask r next) w a s := endsIn_ask h hnext

theorem World.AtRest.rescan (h : w.AtRest) : w.rescan.2.AtRest := by
  rw [World.rescan]
  split
  · exact ⟨⟨h.script, h.provided, h.agrees⟩, h.gate⟩
  · exact h

end ends

/-- The request that settles an update. -/
def settling (autoCommit : Bool) : Request := if autoCommit then .commit else .discard

/-- Why hot reload goes off when a cycle settles an update that is not there. -/
def unsettled (autoCommit : Bool) : DisableReason :=
  if autoCommit then ⟨.commitUpdates, (Fault.protocol .commitWithoutPending).message⟩
  else ⟨.discardUpdates, (Fault.protocol .discardWithoutPending).message⟩

/-- What a cycle does with an update while hot reload is on. -/
def proceed (autoCommit : Bool) (u : Updates) : Client (Option TickOutcome) :=
  match u.status with
  | .ready => settle autoCommit u.deltas.length
  | .blocked => .note u.diagnostics (.done (some (.blocked u.diagnostics.length)))
  | .restartRequired => .note u.diagnostics (.done (some (.restartRequired u.diagnostics.length)))

/-- The client comes to an end without a session; if it collides, with hot reload off. -/
def EndsUnless (collides : Prop) (autoCommit : Bool) (client : Client (Option TickOutcome))
    (w : World) : Prop :=
  (collides → Ends client w (some .inactive) (.disabled (unsettled autoCommit))) ∧
    (¬ collides → ∃ outcome, Ends client w (some outcome) .noSession)

section cycle

variable {w : World} {autoCommit : Bool} {u : Updates} {session : ActiveSession}
  {deltas k : Nat} {outcome : TickOutcome} {client : Client (Option TickOutcome)}
  {collides : Prop}

theorem endsUnless_of_not (hc : ¬ collides) (outcome : TickOutcome)
    (h : Ends client w (some outcome) .noSession) : EndsUnless collides autoCommit client w :=
  ⟨fun h => absurd h hc, fun _ => ⟨outcome, h⟩⟩

theorem endsUnless_of_collides (hc : collides)
    (h : Ends client w (some .inactive) (.disabled (unsettled autoCommit))) :
    EndsUnless collides autoCommit client w := ⟨fun _ => h, fun h => absurd hc h⟩

theorem endsUnless_look {next : SessionState → Client (Option TickOutcome)}
    (h : EndsUnless collides autoCommit (next w.system.state) w) :
    EndsUnless collides autoCommit (.look next) w := h

theorem endsUnless_rescan {next : Bool → Client (Option TickOutcome)}
    (h : EndsUnless collides autoCommit (next w.rescan.1) w.rescan.2) :
    EndsUnless collides autoCommit (.rescan next) w := h

theorem endsUnless_note {diagnostics : List Diagnostic}
    (h : EndsUnless collides autoCommit client { w with record := { w.record with
      noted := w.record.noted ++ diagnostics } }) :
    EndsUnless collides autoCommit (.note diagnostics client) w := h

theorem endsUnless_ask {r : Request} {next : Reply → Client (Option TickOutcome)}
    (h : w.AtRest) (hnext : ∀ w', w'.AtRest → w.Answers r w' →
      EndsUnless collides autoCommit (next (w.outcome r).reply) w') :
    EndsUnless collides autoCommit (.ask r next) w := by
  obtain ⟨v, hrun, hanswers, hgate⟩ := play_ask h.toSound h.gate r next
  obtain ⟨hcollides, hquiet⟩ := hnext v ⟨hanswers.sound, hgate⟩ hanswers
  refine ⟨fun hc => ?_, fun hc => ?_⟩
  · obtain ⟨w', hend, hs⟩ := hcollides hc
    exact ⟨w', hrun.trans hend, hs⟩
  · obtain ⟨outcome, w', hend, hs⟩ := hquiet hc
    exact ⟨outcome, w', hrun.trans hend, hs⟩

/-- Another client ends the session before the client goes on. -/
theorem endsUnless_finish (h : w.AtRest) (hs : w.system.state = .active session)
    (hnext : ∀ w', w'.AtRest → w'.system.state = .noSession →
      EndsUnless collides autoCommit client w') :
    EndsUnless collides autoCommit (client.interject .finish 0) w := by
  obtain ⟨-, hstate⟩ := h.toSound.outcome_finish hs
  rw [Client.interject]
  exact endsUnless_ask h fun w' hrest hanswers => hnext w' hrest (hanswers.state.trans hstate)

theorem settle_eq : settle autoCommit deltas = .ask (settling autoCommit) fun
    | .done => .look fun s =>
      if s.isDisabled then .done (some .inactive)
      else if autoCommit then .done (some (.committed deltas))
      else .done (some (.discarded deltas))
    | .violation _ => .done (some .inactive)
    | _ => .done none := rfl

theorem proceed_of_ready (h : u.status = .ready) :
    proceed autoCommit u = settle autoCommit u.deltas.length := by
  rw [proceed, h]

theorem proceed_of_ne (autoCommit : Bool) (h : u.status ≠ .ready) : ∃ outcome,
    proceed autoCommit u = .note u.diagnostics (.done (some outcome)) := by
  cases hu : u.status with
  | ready => exact absurd hu h
  | _ => exact ⟨_, by rw [proceed, hu]⟩

theorem conclude_eq : conclude autoCommit u = .look fun s =>
    if s.isDisabled then .note u.diagnostics (.done (some .inactive))
    else proceed autoCommit u := rfl

section ended

variable (h : w.AtRest) (hs : w.system.state = .noSession)
include h hs

/-- Without a session nothing can be settled. -/
theorem settle_ended :
    Ends (settle autoCommit deltas) w (some .inactive) (.disabled (unsettled autoCommit)) := by
  obtain ⟨v, hreply, hstate⟩ : ∃ v, (w.outcome (settling autoCommit)).reply = .violation v ∧
      (w.outcome (settling autoCommit)).state = .disabled (unsettled autoCommit) := by
    rw [World.outcome, System.planOf, hs]
    cases autoCommit <;> exact ⟨_, rfl, rfl⟩
  rw [settle_eq]
  refine ends_ask h fun w' _ hanswers => ?_
  rw [hreply]
  exact ends_done (hanswers.state.trans hstate)

theorem proceed_ended : EndsUnless (u.status = .ready) autoCommit (proceed autoCommit u) w := by
  by_cases hready : u.status = .ready
  · refine endsUnless_of_collides hready ?_
    rw [proceed_of_ready hready]
    exact settle_ended h hs
  · obtain ⟨outcome, hnote⟩ := proceed_of_ne autoCommit hready
    refine endsUnless_of_not hready outcome ?_
    rw [hnote]
    exact ends_note (ends_done hs)

/-- A cycle that has an update does not see that the session has ended. -/
theorem conclude_ended : EndsUnless (u.status = .ready) autoCommit (conclude autoCommit u) w := by
  rw [conclude_eq]
  refine endsUnless_look ?_
  rw [hs]
  exact proceed_ended h hs

/-- Without a session there is a neutral update, which is taken for a ready one. -/
theorem updates_ended : EndsUnless (({} : Updates).status = .ready) autoCommit
    (.ask .getUpdates fun
      | .updates u => conclude autoCommit u
      | _ => .done none) w := by
  obtain ⟨hreply, hstate⟩ : (w.outcome .getUpdates).reply = .updates {} ∧
      (w.outcome .getUpdates).state = .noSession := by
    rw [World.outcome, System.planOf, hs]
    exact ⟨rfl, rfl⟩
  refine endsUnless_ask h fun v hrest hanswers => ?_
  rw [hreply]
  exact conclude_ended hrest (hanswers.state.trans hstate)

end ended

theorem interject_done {α : Type} (a : α) (r : Request) (k : Nat) :
    (Client.done a).interject r k = .ask r fun _ => .done a := by
  cases k <;> rfl

theorem endsUnless_congr {collides' : Prop} (hc : collides' ↔ collides)
    (h : EndsUnless collides autoCommit client w) : EndsUnless collides' autoCommit client w :=
  ⟨fun hc' => h.1 (hc.mp hc'), fun hc' => h.2 fun h => hc' (hc.mpr h)⟩

section interjected

variable (h : w.AtRest) (hs : w.system.state = .active session)
include h hs

/-- A session can end after all else. -/
theorem done_interjected (hc : ¬ collides) (outcome : TickOutcome) (k : Nat) :
    EndsUnless collides autoCommit ((Client.done (some outcome)).interject .finish k) w := by
  rw [interject_done]
  exact endsUnless_finish h hs fun _ _ hs' => endsUnless_of_not hc outcome (ends_done hs')

theorem settle_interjected (hp : session.pending.isSome = true) : EndsUnless (k = 0) autoCommit
    ((settle autoCommit deltas).interject .finish k) w := by
  cases k with
  | zero =>
    exact endsUnless_finish h hs fun _ hrest hs' =>
      endsUnless_of_collides rfl (settle_ended hrest hs')
  | succ k =>
    obtain ⟨pending, hpending⟩ := Option.isSome_iff_exists.mp hp
    obtain ⟨session', hreply, hstate⟩ : ∃ session',
        (w.outcome (settling autoCommit)).reply = .done ∧
          (w.outcome (settling autoCommit)).state = .active session' := by
      cases autoCommit with
      | true => exact ⟨_, h.toSound.outcome_commit hs hpending⟩
      | false => exact ⟨_, h.toSound.outcome_discard hs hpending⟩
    rw [settle_eq, Client.interject]
    refine endsUnless_ask h fun v hrest hanswers => ?_
    have hs' := hanswers.state.trans hstate
    rw [hreply]
    cases k with
    | zero =>
      refine endsUnless_finish hrest hs' fun v' hrest' hs'' => endsUnless_look ?_
      rw [hs'']
      cases autoCommit <;> exact endsUnless_of_not nofun _ (ends_done hs'')
    | succ k =>
      refine endsUnless_look ?_
      rw [hs']
      cases autoCommit <;> exact done_interjected hrest hs' nofun _ k

theorem proceed_interjected (hp : u.status = .ready → session.pending.isSome = true) :
    EndsUnless (u.status = .ready ∧ k = 0) autoCommit
      ((proceed autoCommit u).interject .finish k) w := by
  by_cases hready : u.status = .ready
  · rw [proceed_of_ready hready]
    exact endsUnless_congr (by simp [hready]) (settle_interjected h hs (hp hready))
  · obtain ⟨outcome, hnote⟩ := proceed_of_ne autoCommit hready
    rw [hnote]
    cases k with
    | zero =>
      exact endsUnless_finish h hs fun _ _ hs' =>
        endsUnless_of_not (by simp [hready]) outcome (ends_note (ends_done hs'))
    | succ k =>
      have hrest : World.AtRest { w with record := { w.record with
          noted := w.record.noted ++ u.diagnostics } } :=
        ⟨⟨h.script, h.provided, h.agrees⟩, h.gate⟩
      exact endsUnless_note (done_interjected hrest hs (by simp) outcome k)

theorem conclude_interjected (hp : u.status = .ready → session.pending.isSome = true) :
    EndsUnless (u.status = .ready ∧ k ≤ 1) autoCommit
      ((conclude autoCommit u).interject .finish k) w := by
  cases k with
  | zero =>
    exact endsUnless_congr (by simp)
      (endsUnless_finish h hs fun _ hrest hs' => conclude_ended hrest hs')
  | succ k =>
    rw [conclude_eq]
    refine endsUnless_look ?_
    rw [hs]
    exact endsUnless_congr (by simp) (proceed_interjected h hs hp)

end interjected

/-- The session ends after a cycle found changes, and before it settled what it found. -/
def Collides (w : World) (session : ActiveSession) (k : Nat) : Prop :=
  w.rescan.1 = true ∧
    session.committed.differsFrom w.rescan.2.store.current none w.system.settings.detection = true ∧
      (k = 3 ∨ (k = 4 ∨ k = 5) ∧ (updatesBetween w.engine.marker
        w.system.settings.reportDiagnostics session.committed w.rescan.2.store.current).status =
          .ready)

theorem rescan_system : w.rescan.2.system = w.system ∧ w.rescan.2.engine = w.engine := by
  rw [World.rescan]
  split <;> exact ⟨rfl, rfl⟩

/-- A cycle that asks for updates in a session, while the session ends later. -/
theorem updates_interjected (h : w.AtRest) (hs : w.system.state = .active session)
    (autoCommit : Bool) (k : Nat) :
    EndsUnless ((updatesBetween w.engine.marker w.system.settings.reportDiagnostics
        session.committed w.store.current).status = .ready ∧ k ≤ 1) autoCommit
      (.ask .getUpdates fun reply => Client.interject .finish k (match reply with
        | .updates u => conclude autoCommit u
        | _ => .done none)) w := by
  obtain ⟨hreply, hstate⟩ := h.toSound.outcome_getUpdates hs
  refine endsUnless_ask h fun v hrest hanswers => ?_
  rw [hreply]
  have hs' := hanswers.state.trans hstate
  split at hs'
  next hready => exact conclude_interjected hrest hs' fun _ => rfl
  next hready => exact conclude_interjected hrest hs' fun hr => absurd hr hready

/-- A cycle from its check for changes on. -/
def check (autoCommit : Bool) : Client (Option TickOutcome) :=
  .ask (.hasChanges none) fun
    | .changed false => .done (some .unchanged)
    | .changed true => .ask .getUpdates fun
      | .updates u => conclude autoCommit u
      | _ => .done none
    | _ => .done none

theorem tick_eq : tick autoCommit = .rescan fun ok =>
    if !ok then .done (some .scanFailed)
    else .look fun s =>
      if s.session?.isNone then .done (some .inactive) else check autoCommit := rfl

/-- Without a session there are no changes. -/
theorem check_ended (h : w.AtRest) (hs : w.system.state = .noSession) (hc : ¬ collides) :
    EndsUnless collides autoCommit (check autoCommit) w := by
  rw [check]
  refine endsUnless_ask h fun v _ hanswers => ?_
  have hs' := hanswers.state
  rw [World.outcome_hasChanges, hs] at hs' ⊢
  exact endsUnless_of_not hc _ (ends_done hs')

theorem check_interjected (h : w.AtRest) (hs : w.system.state = .active session) :
    EndsUnless (session.committed.differsFrom w.store.current none
        w.system.settings.detection = true ∧ (k = 1 ∨ (k = 2 ∨ k = 3) ∧
          (updatesBetween w.engine.marker w.system.settings.reportDiagnostics session.committed
            w.store.current).status = .ready)) autoCommit
      ((check autoCommit).interject .finish k) w := by
  cases k with
  | zero => exact endsUnless_finish h hs fun _ hrest hs' => check_ended hrest hs' (by simp)
  | succ k =>
    rw [check, Client.interject]
    refine endsUnless_ask h fun v hrest hanswers => ?_
    have hs' : v.system.state = .active session := by
      rw [hanswers.state, World.outcome_hasChanges, hs]
    have hreply : (w.outcome (.hasChanges none)).reply = .changed
        (session.committed.differsFrom w.store.current none w.system.settings.detection) := by
      rw [World.outcome_hasChanges, hs]
      rfl
    rw [hreply]
    cases session.committed.differsFrom w.store.current none w.system.settings.detection with
    | false => exact done_interjected hrest hs' (by simp) _ k
    | true =>
      cases k with
      | zero =>
        exact endsUnless_congr (by simp) (endsUnless_finish hrest hs' fun _ hrest' hs'' =>
          updates_ended hrest' hs'')
      | succ k =>
        have hupdates := updates_interjected hrest hs' autoCommit k
        rw [hanswers.current, hanswers.marker, hanswers.settings] at hupdates
        refine endsUnless_congr ?_ hupdates
        have hbound : k ≤ 1 ↔ k = 0 ∨ k = 1 := by omega
        simp [hbound, and_comm]

/-- What a cycle comes to if the session ends while it is under way. -/
theorem tick_interjected (h : w.AtRest) (hs : w.system.state = .active session) :
    EndsUnless (Collides w session k) autoCommit ((tick autoCommit).interject .finish k) w := by
  obtain ⟨hsystem, hengine⟩ := rescan_system (w := w)
  have hs' : w.rescan.2.system.state = .active session := hsystem ▸ hs
  rw [tick_eq]
  cases k with
  | zero =>
    refine endsUnless_finish h hs fun v hrest hs' => endsUnless_rescan ?_
    have hs'' : v.rescan.2.system.state = .noSession := by rw [rescan_system.1, hs']
    cases v.rescan.1 with
    | false => exact endsUnless_of_not (by simp [Collides]) _ (ends_done hs'')
    | true =>
      refine endsUnless_look ?_
      rw [hs'']
      exact endsUnless_of_not (by simp [Collides]) _ (ends_done hs'')
  | succ k =>
    refine endsUnless_rescan ?_
    cases hok : w.rescan.1 with
    | false => exact done_interjected h.rescan hs' (by simp [Collides, hok]) _ k
    | true =>
      cases k with
      | zero =>
        refine endsUnless_finish h.rescan hs' fun v _ hs'' => endsUnless_look ?_
        rw [hs'']
        exact endsUnless_of_not (by simp [Collides]) _ (ends_done hs'')
      | succ k =>
        refine endsUnless_look ?_
        rw [hs']
        refine endsUnless_congr ?_ (check_interjected h.rescan hs')
        simp [Collides, hok, hsystem, hengine]

end cycle

variable {origin w : World} {es : List StoreEdit} {hs : List Happening} {session : ActiveSession}

/-- Whether ending a session while a cycle is under way does harm depends on the moment only. -/
theorem session_ends_during_tick (h : origin.Run es hs w) (ho : origin.IsFresh)
    (hscript : origin.script = []) (hgate : w.system.gate = {})
    (hs' : w.system.state = .active session) (autoCommit : Bool) (k : Nat) :
    ∃ outcome w', (play false ((tick autoCommit).interject .finish k)).run w =
        (.finished (some outcome), w') ∧
      (Collides w session k → outcome = .inactive ∧
        w'.system.state = .disabled (unsettled autoCommit)) ∧
      (¬ Collides w session k → w'.system.state = .noSession) := by
  have hrest : w.AtRest := ⟨h.sound ho hscript, hgate⟩
  have hends : EndsUnless (Collides w session k) autoCommit _ w := tick_interjected hrest hs'
  by_cases hc : Collides w session k
  · obtain ⟨w', hrun, hstate⟩ := hends.1 hc
    exact ⟨_, w', hrun, fun _ => ⟨rfl, hstate⟩, fun hn => absurd hc hn⟩
  · obtain ⟨outcome, w', hrun, hstate⟩ := hends.2 hc
    exact ⟨outcome, w', hrun, fun hc' => absurd hc' hc, fun _ => hstate⟩

/-- A world with one source file, which its store has not seen yet. -/
def World.watched : World :=
  { World.blank with
    files := { top := .folder [("main.rs".toUTF8.toList, .file [0x31])] }
    root := ([0x2e], ".") }

theorem World.watched_isFresh : World.watched.IsFresh := ⟨⟨rfl, rfl, rfl⟩, rfl, rfl, rfl⟩

/-- How a client ends can be computed. -/
theorem endsIn_of_run {α : Type} {client : Client α} {w : World} {a : α}
    (h : (match ((play false client).run w).1 with
      | .finished b => some b
      | .stopped _ _ => none) = some a) : EndsIn client w a fun _ => True := by
  cases hrun : (play false client).run w with
  | mk progress w' =>
    rw [hrun] at h
    cases progress with
    | finished b =>
      obtain rfl : b = a := Option.some.inj h
      exact ⟨w', hrun, trivial⟩
    | stopped task next => cases h

/-- A session starts in it, whose first cycle has the file to commit. -/
theorem watched_starts : ∃ hs w session, World.watched.Run [] hs w ∧ w.system.gate = {} ∧
    w.system.state = .active session ∧ ¬ Collides w session 2 ∧ Collides w session 4 ∧
      EndsIn (tick true) w (some (.committed 1)) fun _ => True := by
  obtain ⟨hs, started⟩ := World.watched_isFresh.starts rfl
  refine ⟨hs, _, _, started, rfl, rfl, by simp [Collides], ?_, endsIn_of_run (by decide +kernel)⟩
  exact ⟨by decide +kernel, by decide +kernel, .inr ⟨.inl rfl, by decide +kernel⟩⟩

theorem session_ends_before_check : ∃ es hs w outcome w', World.watched.Run es hs w ∧
    (play false ((tick true).interject .finish 2)).run w = (.finished (some outcome), w') ∧
      w'.system.state = .noSession := by
  obtain ⟨hs, w, session, hrun, hgate, hactive, hcollides, -, -⟩ := watched_starts
  obtain ⟨outcome, w', hplay, -, hstate⟩ :=
    session_ends_during_tick hrun World.watched_isFresh rfl hgate hactive true 2
  exact ⟨_, hs, w, outcome, w', hrun, hplay, hstate hcollides⟩

/-- A session that ends after a cycle computed an update, and hot reload is off for good. -/
theorem session_ends_before_commit : ∃ es hs w session w', World.watched.Run es hs w ∧
    World.watched.IsFresh ∧ w.system.gate = {} ∧ w.system.state = .active session ∧
      (play false ((tick true).interject .finish 4)).run w = (.finished (some .inactive), w') ∧
        w'.system.state =
          .disabled ⟨.commitUpdates, (Fault.protocol .commitWithoutPending).message⟩ := by
  obtain ⟨hs, w, session, hrun, hgate, hactive, -, hcollides, -⟩ := watched_starts
  have hends : EndsUnless (Collides w session 4) true _ w :=
    tick_interjected ⟨hrun.sound World.watched_isFresh rfl, hgate⟩ hactive
  obtain ⟨w', hplay, hstate⟩ := hends.1 hcollides
  exact ⟨_, hs, w, session, w', hrun, World.watched_isFresh, hgate, hactive, hplay, hstate⟩

end Kernel

end LiveEdit
