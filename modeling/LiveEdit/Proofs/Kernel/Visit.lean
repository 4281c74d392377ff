import LiveEdit.Proofs.Kernel.Play
import LiveEdit.Proofs.Kernel.Progress

/-! A client of a coordinator, step by step, among all the others. -/
namespace LiveEdit.Kernel

/-- Where a client stands: its token may have fired, or is the token of the task it waits for. -/
inductive Stand (α : Type) where
  | free (fired : Bool) (rest : Client α)
  | waits (task : Nat) (next : Reply → Client α)

/-- A step of a client or of anyone else, with what happens in it and the task that it issues. -/
inductive Visit.Step {α : Type} (w : OpenWorld) :
    Stand α → List Happening → List Nat → OpenWorld → Stand α → Prop
  | others {st : Stand α} {hs : List Happening} {w' : OpenWorld} (hw : w.Step hs w') :
    Step w st hs [] w' st
  | fires {fired : Bool} {rest : Client α} : Step w (.free fired rest) [] [] w (.free true rest)
  | asks {fired : Bool} {r : Request} {next : Reply → Client α} :
    Step w (.free fired (.ask r next)) [] [w.system.tasks.length]
      { w with system := w.system.issue r fired } (.waits w.system.tasks.length next)
  | hears {i : Nat} {next : Reply → Client α} {reply : Reply}
      (hr : w.system.reply? i = some reply) :
    Step w (.waits i next) [] [] w (.free (w.system.hasFired i) (next reply))
  | looks {fired : Bool} {next : SessionState → Client α} :
    Step w (.free fired (.look next)) [] [] w (.free fired (next w.system.state))
  | polls {fired : Bool} {next : Bool → Client α} :
    Step w (.free fired (.poll next)) [] [] w (.free fired (next fired))
  | rescans {fired : Bool} {next : Bool → Client α} (ok : Bool) :
    Step w (.free fired (.rescan next)) [] [] w (.free fired (next ok))
  | notes {fired : Bool} {diagnostics : List Diagnostic} {rest : Client α} :
    Step w (.free fired (.note diagnostics rest)) [] [] w (.free fired rest)

/-- The steps of a client among all others, with the log of the requests and its own tasks. -/
inductive Visit {α : Type} (w : OpenWorld) (st : Stand α) :
    List Happening → List Nat → OpenWorld → Stand α → Prop
  | nil : Visit w st [] [] w st
  | snoc {hs hs' : List Happening} {own own' : List Nat} {u v : OpenWorld} {su sv : Stand α}
      (h : Visit w st hs own u su) (hu : Visit.Step u su hs' own' v sv) :
    Visit w st (hs ++ hs') (own ++ own') v sv

namespace Visit

variable {α : Type} {origin w w' v : OpenWorld} {st su sv : Stand α} {hs hs' : List Happening}
  {own own' : List Nat}

theorem single (h : Step w st hs own v sv) : Visit w st hs own v sv := Visit.nil.snoc h

theorem trans (h : Visit w st hs own w' su) (h' : Visit w' su hs' own' v sv) :
    Visit w st (hs ++ hs') (own ++ own') v sv := by
  induction h' with
  | nil => simpa using h
  | snoc _ hu ih => simpa only [← List.append_assoc] using ih.snoc hu

theorem of_run (h : w.Run hs v) (st : Stand α) : Visit w st hs [] v st := by
  induction h with
  | nil => exact .nil
  | snoc _ hw ih => exact ih.snoc (.others hw)

theorem run_of_step (h : Step w st hs own v sv) : w.Run hs v := by
  cases h with
  | others hw => exact OpenWorld.Run.nil.snoc hw
  | asks => exact OpenWorld.Run.nil.snoc (.move (.issue _ _) (by rintro _ _ ⟨⟩))
  | _ => exact .nil

theorem run (h : Visit w st hs own v sv) : w.Run hs v := by
  induction h with
  | nil => exact .nil
  | snoc _ hu ih => exact ih.trans (run_of_step hu)

/-- The client waits for a task only if the task was not dropped. -/
def Attended (w : OpenWorld) : Stand α → Prop
  | .free _ _ => True
  | .waits i _ => ∃ t, w.system.task? i = some t ∧ t.position ≠ .dropped

/-- The client can come to its end. -/
def CanFinish (w : OpenWorld) (st : Stand α) : Prop :=
  ∃ hs own v fired a, Visit w st hs own v (.free fired (.done a))

theorem CanFinish.before (h : CanFinish v sv) (hv : Visit w st hs own v sv) : CanFinish w st := by
  obtain ⟨hs', own', u, fired, a, hu⟩ := h
  exact ⟨_, _, u, fired, a, hv.trans hu⟩

/-- Whoever waits hears the reply in the end, and goes on from there. -/
theorem canFinish_of_waits {i : Nat} {t : Task} {next : Reply → Client α}
    (h : origin.Run hs w) (ho : origin.IsFresh) (ht : w.system.task? i = some t)
    (hd : t.position ≠ .dropped)
    (hnext : ∀ {hs v fired} reply, origin.Run hs v → CanFinish v (.free fired (next reply))) :
    CanFinish w (.waits i next) := by
  obtain ⟨hs', v, reply, hrun, hr⟩ := h.canEnd ho ht hd
  have hlater : CanFinish v (.free (v.system.hasFired i) (next reply)) :=
    hnext reply (h.trans hrun)
  have hhears : CanFinish v (.waits i next) := hlater.before (single (.hears hr))
  exact hhears.before (of_run hrun _)

theorem canFinish_of_free (client : Client α) (h : origin.Run hs w) (ho : origin.IsFresh)
    (fired : Bool) : CanFinish w (.free fired client) := by
  induction client generalizing hs w fired with
  | done a => exact ⟨[], [], w, fired, a, .nil⟩
  | look next ih => exact (ih _ h fired).before (single .looks)
  | poll next ih => exact (ih _ h fired).before (single .polls)
  | rescan next ih => exact (ih true h fired).before (single (.rescans true))
  | note diagnostics rest ih => exact (ih h fired).before (single .notes)
  | ask r next ih =>
    have hasks : Step w (.free fired (.ask r next)) [] _ _ _ := .asks
    have hnew : (w.system.issue r fired).task? w.system.tasks.length =
        some ⟨r, fired, .waiting⟩ := by
      rw [System.task?_issue, if_pos rfl]
    have hwaits := canFinish_of_waits (h.trans (run_of_step hasks)) ho hnew (by rintro ⟨⟩)
      fun reply hrun => ih reply hrun _
    exact hwaits.before (single hasks)

/-- Every client can come to its end, as long as somebody waits for its task. -/
theorem canFinish (st : Stand α) (h : origin.Run hs w) (ho : origin.IsFresh)
    (hw : Attended w st) : CanFinish w st := by
  cases st with
  | free fired rest => exact canFinish_of_free rest h ho fired
  | waits i next =>
    obtain ⟨t, ht, hd⟩ := hw
    exact canFinish_of_waits h ho ht hd fun reply hrun => canFinish_of_free _ hrun ho _

end Visit

variable {α : Type} {w : World} {i : Nat} {reply : Reply}

/-- A task that was served to its end has the reply that is told. -/
theorem serve_reply (p : Plan) (hs : w.script = []) (h : ((serve i p).run w).1 = some reply) :
    ((serve i p).run w).2.system.reply? i = some reply := by
  induction p generalizing w with
  | conclude f => exact h
  | await d call resume ih =>
    have hscript := (World.step_script (·.arrive i (.await d call resume))).trans hs
    cases hr : (w.step (·.arrive i (.await d call resume))).system.reply? i with
    | some reply' =>
      rw [serve_of_reply hr] at h ⊢
      exact hr.trans h
    | none =>
      obtain ⟨w', hn, -, hscript', -⟩ := World.noteCall_eq hscript call
      rw [serve_of_call hr hn] at h ⊢
      exact ih _ ((World.perform_script call).trans (hscript'.trans hscript)) h

theorem attend_reply (hs : w.script = []) (h : ((attend i).run w).1 = some reply) :
    ((attend i).run w).2.system.reply? i = some reply := by
  unfold attend at h ⊢
  simp only [StateT.run_bind, StateT.run_get, pure_bind] at h ⊢
  cases ht : w.system.task? i with
  | none =>
    rw [ht] at h
    cases h
  | some t =>
    obtain ⟨r, fired, position⟩ := t
    simp only [ht] at h ⊢
    cases position with
    | ended reply' =>
      cases h
      exact (System.reply?_eq_some_iff ht).mpr rfl
    | dropped => cases h
    | waiting =>
      cases hg : r.takesGate with
      | false =>
        simp only [hg, Bool.false_eq_true, if_false] at h ⊢
        exact serve_reply _ hs h
      | true =>
        simp only [hg, if_true, StateT.run_bind, StateT.run_modify, StateT.run_get, pure_bind]
          at h ⊢
        cases hr : (w.step (·.approach i)).system.reply? i with
        | some reply' =>
          simp only [hr] at h ⊢
          exact hr.trans h
        | none =>
          simp only [hr, StateT.run_bind, StateT.run_get, pure_bind] at h ⊢
          split at h
          next hh =>
            rw [if_pos hh]
            exact serve_reply _ ((World.step_script _).trans hs) h
          next => cases h
    | inCall d call resume =>
      simp only at h ⊢
      split at h
      next hf =>
        rw [if_pos hf]
        exact h
      next hf =>
        rw [if_neg hf]
        exact serve_reply _ ((World.perform_script call).trans hs) h

theorem rescan_keeps (w : World) : w.rescan.2.opened = w.opened ∧
    w.rescan.2.script = w.script ∧ w.rescan.2.provided = w.provided := by
  rw [World.rescan]
  split <;> exact ⟨rfl, rfl, rfl⟩

/-- Where a client is when it has played as far as it gets. -/
inductive Progress.StandsAt : Progress α → Stand α → Prop
  | finished (fired : Bool) (a : α) : StandsAt (.finished a) (.free fired (.done a))
  | stopped (i : Nat) (next : Reply → Client α) : StandsAt (.stopped i next) (.waits i next)

/-- What is played from a stand is a visit to where the client gets. -/
def Visits (w : World) (st : Stand α) (played : Play (Progress α)) : Prop :=
  ∃ hs own sv, Visit w.opened st hs own (played.run w).2.opened sv ∧ (played.run w).1.StandsAt sv

/-- A client that waited hears the reply once its task is served, and plays on. -/
theorem visits_of_waits {next : Reply → Client α} (hs : w.script = []) (hp : w.provided = none)
    (hnext : ∀ {v : World} {fired : Bool} reply, v.script = [] → v.provided = none →
      Visits v (.free fired (next reply)) (play fired (next reply))) :
    Visits w (.waits i next) (goOn i next) := by
  have hstart : w.Reaches w := ⟨hs, [], [], .nil⟩
  obtain ⟨hscript, es, hs', hrun⟩ := attend_reaches (i := i) hstart
  have hattends : Visit w.opened (.waits i next) hs' [] _ _ := .of_run (hrun.opened hp) _
  rw [Visits, goOn]
  simp only [StateT.run_bind]
  cases hr : (attend i).run w with
  | mk reply? v =>
    rw [hr] at hscript hattends hrun
    cases reply? with
    | none => exact ⟨_, _, _, hattends, .stopped i next⟩
    | some reply =>
      have hreply : v.system.reply? i = some reply := by
        have hended : ((attend i).run w).1 = some reply →
            ((attend i).run w).2.system.reply? i = some reply := attend_reply hs
        rw [hr] at hended
        exact hended rfl
      have hears : Visit.Step v.opened (.waits i next) [] [] v.opened
          (.free (v.system.hasFired i) (next reply)) := .hears hreply
      obtain ⟨hs'', own, sv, hv, hst⟩ :
          Visits v (.free (v.system.hasFired i) (next reply)) (play _ (next reply)) :=
        hnext reply hscript (hrun.provided hp)
      exact ⟨_, _, sv, (hattends.snoc hears).trans hv, hst⟩

/-- Whatever a client plays in a world without a script is a visit there. -/
theorem play_visits (client : Client α) (fired : Bool) (hs : w.script = [])
    (hp : w.provided = none) : Visits w (.free fired client) (play fired client) := by
  induction client generalizing fired w with
  | done a => exact ⟨_, _, _, .nil, .finished fired a⟩
  | look next ih =>
    obtain ⟨hs', own, sv, hv, hst⟩ := ih w.system.state fired hs hp
    exact ⟨_, _, sv, (Visit.single .looks).trans hv, hst⟩
  | poll next ih =>
    obtain ⟨hs', own, sv, hv, hst⟩ := ih fired fired hs hp
    exact ⟨_, _, sv, (Visit.single .polls).trans hv, hst⟩
  | rescan next ih =>
    obtain ⟨hopened, hscript, hprov⟩ := rescan_keeps w
    obtain ⟨hs', own, sv, hv, hst⟩ :=
      ih w.rescan.1 fired (w := w.rescan.2) (hscript.trans hs) (hprov.trans hp)
    rw [hopened] at hv
    exact ⟨_, _, sv, (Visit.single (.rescans w.rescan.1)).trans hv, hst⟩
  | note diagnostics rest ih =>
    obtain ⟨hs', own, sv, hv, hst⟩ := ih fired
      (w := { w with record := { w.record with noted := w.record.noted ++ diagnostics } }) hs hp
    exact ⟨_, _, sv, (Visit.single .notes).trans hv, hst⟩
  | ask r next ih =>
    let i := w.system.tasks.length
    let u := w.step (·.issue r fired)
    have hu : u.opened = { w.opened with system := w.system.issue r fired } := by
      rw [World.opened, World.step_system, World.step_engine]
      rfl
    have hasks : Visit w.opened (.free fired (.ask r next)) [] [i] u.opened (.waits i next) :=
      hu ▸ Visit.single .asks
    obtain ⟨hs', own, sv, hv, hst⟩ : Visits u (.waits i next) (goOn i next) :=
      visits_of_waits ((World.step_script _).trans hs) ((World.step_provided _).trans hp)
        fun {_ fired} reply => ih reply fired
    have hplay : (play fired (.ask r next)).run w = (goOn i next).run u := by
      conv => lhs; unfold play
      simp only [StateT.run_bind, StateT.run_get, StateT.run_modify, pure_bind]
      rfl
    rw [Visits, hplay]
    exact ⟨_, _, sv, hasks.trans hv, hst⟩

/-- And so is what it plays when it has waited. -/
theorem goOn_visits (next : Reply → Client α) (hs : w.script = []) (hp : w.provided = none) :
    Visits w (.waits i next) (goOn i next) :=
  visits_of_waits hs hp fun _ => play_visits _ _

end LiveEdit.Kernel
