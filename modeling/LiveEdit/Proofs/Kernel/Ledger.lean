import LiveEdit.Proofs.Kernel.Run
import LiveEdit.Proofs.Session.Course

/-! What holds between a session and its collaborators is proved plan by plan. -/
namespace LiveEdit.Kernel

def completionsOf (hs : List Happening) : List Completion := hs.filterMap fun
  | .replied _ c => some c
  | _ => none

/-- What is noted of the replies so far, and what holds of it, a session and the collaborators. -/
structure Ledger (γ : Type) where
  note : γ → Completion → γ
  Holds : γ → SessionState → Collaborators → Prop

namespace Ledger

variable {γ : Type} {L : Ledger γ} {g : γ} {s : SessionState} {c c' : Collaborators}

/-- The rest of a plan keeps the ledger, though others edit the store before each of its calls. -/
def Keeps (L : Ledger γ) (r : Request) (g : γ) (s : SessionState) : Plan → Collaborators → Prop
  | .conclude f, c =>
    L.Holds (L.note g ⟨r, (f s).reply, s, (f s).state, (f s).effects⟩) (f s).state c
  | .await _ call resume, c => L.Holds g s c ∧ ∀ c', L.Holds g s c' →
    ∃ a, (c'.perform call).1 = .ok a ∧ L.Keeps r g s (resume (.ok a)) (c'.perform call).2

/-- A call that someone is in will succeed, and what comes after it keeps the ledger. -/
def Serves (L : Ledger γ) (r : Request) (g : γ) (s : SessionState) (call : Call)
    (resume : Except Fault call.Answer → Plan) : Prop :=
  ∀ c, L.Holds g s c →
    ∃ a, (c.perform call).1 = .ok a ∧ L.Keeps r g s (resume (.ok a)) (c.perform call).2

/-- Edits of the store and all requests keep the ledger; only endings are noted in it. -/
structure Sound (L : Ledger γ) (settings : SessionSettings) (allowed : StoreEdit → Prop) :
    Prop where
  serves {r : Request} {g : γ} {s : SessionState} {c : Collaborators} (hg : r.takesGate = true)
    (h : L.Holds g s c) : L.Keeps r g s (r.plan settings s) c
  edits {e : StoreEdit} {g : γ} {s : SessionState} {c : Collaborators} (he : allowed e)
    (h : L.Holds g s c) : L.Holds g s { c with store := e.apply c.store }
  clears {g : γ} {s : SessionState} {c : Collaborators} (h : L.Holds g s c) :
    L.Holds g s { c with store := c.store.clear }
  cancelled (r : Request) (g : γ) (s : SessionState) : L.note g ⟨r, .cancelled, s, s, []⟩ = g
  checked {r : Request} (hg : r.takesGate = false) (g : γ) (reply : Reply) (s : SessionState)
    (effects : List Effect) : L.note g ⟨r, reply, s, s, effects⟩ = g

/-- What is noted after a log. -/
def noted (L : Ledger γ) (g : γ) (hs : List Happening) : γ := (completionsOf hs).foldl L.note g

theorem completionsOf_append (a b : List Happening) :
    completionsOf (a ++ b) = completionsOf a ++ completionsOf b := List.filterMap_append

theorem noted_append (a b : List Happening) :
    L.noted g (a ++ b) = L.noted (L.noted g a) b := by
  rw [noted, completionsOf_append, List.foldl_append]
  rfl

theorem mem_completionsOf {hs : List Happening} {c : Completion} :
    c ∈ completionsOf hs ↔ ∃ i, .replied i c ∈ hs := by
  simp only [completionsOf, List.mem_filterMap]
  constructor
  · rintro ⟨e, he, hc⟩
    cases e with
    | replied i c' =>
      cases hc
      exact ⟨i, he⟩
    | _ => cases hc
  · rintro ⟨i, hi⟩
    exact ⟨_, hi, rfl⟩

theorem completionsOf_opening {m : Move} {sys : System} : completionsOf (m.opening sys) = [] := by
  cases m with
  | takeTurn i => cases h : sys.task? i <;> simp [Move.opening, h, completionsOf]
  | _ => rfl

theorem foldl_note_eq {cs : List Completion} (h : ∀ c ∈ cs, L.note g c = g) :
    cs.foldl L.note g = g := by
  induction cs with
  | nil => rfl
  | cons c cs ih =>
    rw [List.foldl_cons, h c List.mem_cons_self]
    exact ih fun c hc => h c (List.mem_cons_of_mem _ hc)

/-- If every reply that a step logs is one that needs no note, nothing is noted. -/
theorem noted_eq {hs : List Happening} (h : ∀ i c, .replied i c ∈ hs → L.note g c = g) :
    L.noted g hs = g := by
  refine foldl_note_eq fun c hc => ?_
  obtain ⟨i, hi⟩ := mem_completionsOf.mp hc
  exact h i c hi

/-- The ledger holds, and whoever is in a call with the gate will keep it. -/
structure Sustains (L : Ledger γ) (g : γ) (sys : System) (c : Collaborators) : Prop where
  now : L.Holds g sys.state c
  inCall {i : Nat} {t : Task} {d : Discipline} {call : Call}
    {resume : Except Fault call.Answer → Plan} (ht : sys.task? i = some t)
    (hg : t.request.takesGate = true) (hp : t.position = .inCall d call resume) :
    L.Serves t.request g sys.state call resume

variable {settings : SessionSettings} {allowed : StoreEdit → Prop} {sys sys' : System} {m : Move}
  {i : Nat} {t : Task} {q : Plan}

/-- A step that writes no session keeps what holds, if those that come to a call do. -/
theorem Sustains.stay (h : L.Sustains g sys c) (hm : sys.Step m sys')
    (hs : sys'.state = sys.state) (hc : L.Holds g sys.state c')
    (hnew : ∀ {j t d call resume}, sys.task? j = some t → t.request.takesGate = true →
      sys.Comes j t m (.await d call resume) → L.Serves t.request g sys.state call resume) :
    L.Sustains g sys' c' where
  now := hs ▸ hc
  inCall ht hg hp := by
    obtain ⟨u, hu, hr, hcase⟩ := System.inCall_step hm ht hp
    rw [hs, ← hr]
    rcases hcase with hpu | hcomes
    · exact h.inCall hu (hr ▸ hg) (hpu.trans hp)
    · exact hnew hu (hr ▸ hg) hcomes

/-- What brings no task to its plan changes nothing for the ledger. -/
theorem sustains_quiet (hL : L.Sound settings allowed) (hm : sys.Step m sys')
    (h : L.Sustains g sys c) (hq : ∀ i t q, ¬ sys.Comes i t m q) :
    L.Sustains (L.noted g (m.happenings sys sys')) sys' c := by
  have hs : sys'.state = sys.state := by
    cases System.step_change hm with
    | concludes _ hc => exact absurd hc (hq _ _ _)
    | _ => rfl
  have hnote : L.noted g (m.happenings sys sys') = g := by
    refine noted_eq fun i c hi => ?_
    obtain ⟨t, -, hrep⟩ := System.replies_of_mem hm hi
    cases hrep with
    | cancels => exact hL.cancelled _ _ _
    | concludes hcomes => exact absurd hcomes (hq _ _ _)
  rw [hnote]
  exact h.stay hm hs h.now fun _ _ hc => absurd hc (hq _ _ _)

/-- A task comes to a call. -/
theorem sustains_await {d : Discipline} {call : Call} {resume : Except Fault call.Answer → Plan}
    (hL : L.Sound settings allowed) (ht : sys.task? i = some t)
    (hc : sys.Comes i t m (.await d call resume)) (h : L.Sustains g sys c)
    (hnow : L.Holds g sys.state c')
    (hg : t.request.takesGate = true → L.Serves t.request g sys.state call resume) :
    L.Sustains (L.noted g (m.happenings sys (sys.arrive i (.await d call resume))))
      (sys.arrive i (.await d call resume)) c' := by
  have hm := System.Step.arrive ht hc
  have hs : (sys.arrive i (.await d call resume)).state = sys.state := by
    rw [System.arrive]
    split <;> rfl
  have hnote : L.noted g (m.happenings sys (sys.arrive i (.await d call resume))) = g := by
    refine noted_eq fun j c hj => ?_
    obtain ⟨u, hu, hrep⟩ := System.replies_of_mem hm hj
    cases hrep with
    | cancels => exact hL.cancelled _ _ _
    | concludes hc' => cases (hc.unique hc' ht hu).2.2
  rw [hnote]
  refine h.stay hm hs hnow fun hu hgu hc' => ?_
  obtain ⟨rfl, rfl, heq⟩ := hc.unique hc' ht hu
  cases heq
  exact hg hgu

/-- A task with the gate concludes. Nobody else is in a call with the gate. -/
theorem sustains_conclude {f : SessionState → Conclusion} (ho : sys.Orderly)
    (ht : sys.task? i = some t) (hgate : t.request.takesGate = true)
    (hc : sys.Comes i t m (.conclude f)) (hk : L.Keeps t.request g sys.state (.conclude f) c') :
    L.Sustains (L.noted g (m.happenings sys (sys.arrive i (.conclude f))))
      (sys.arrive i (.conclude f)) c' := by
  have hnote : L.noted g (m.happenings sys (sys.conclude i (f sys.state))) = L.note g
      ⟨t.request, (f sys.state).reply, sys.state, (f sys.state).state, (f sys.state).effects⟩ := by
    rw [hc.happenings_conclude ht, noted, completionsOf_append, completionsOf_opening]
    rfl
  refine ⟨hnote ▸ hk, fun hu hgu hp => ?_⟩
  exact absurd hp (ho.no_call_left ht hgate hc hu hgu)

/-- A check for changes comes to its end. -/
theorem sustains_checked {f : SessionState → Conclusion} (hL : L.Sound settings allowed)
    (hp : sys.Planned) (ht : sys.task? i = some t) (hgate : t.request.takesGate = false)
    (hc : sys.Comes i t m (.conclude f)) (h : L.Sustains g sys c) (hnow : L.Holds g sys.state c') :
    L.Sustains (L.noted g (m.happenings sys (sys.arrive i (.conclude f))))
      (sys.arrive i (.conclude f)) c' := by
  have hm := System.Step.arrive ht hc
  have hs : (f sys.state).state = sys.state :=
    (System.state_of_no_gate (System.onCourse_of_comes hp ht hc) hgate _).1
  have hnote : L.noted g (m.happenings sys (sys.arrive i (.conclude f))) = g := by
    refine noted_eq fun j c hj => ?_
    obtain ⟨u, hu, hrep⟩ := System.replies_of_mem hm hj
    cases hrep with
    | cancels => exact hL.cancelled _ _ _
    | concludes hc' =>
      obtain ⟨rfl, rfl, heq⟩ := hc.unique hc' ht hu
      cases heq
      rw [hs]
      exact hL.checked hgate _ _ _ _
  rw [hnote]
  refine h.stay hm hs hnow fun hu _ hc' => ?_
  cases (hc.unique hc' ht hu).2.2

/-- A task comes to a plan that keeps the ledger, and the ledger holds again. -/
theorem sustains_arrive (hL : L.Sound settings allowed) (ho : sys.Orderly) (hp : sys.Planned)
    (ht : sys.task? i = some t) (hc : sys.Comes i t m q) (h : L.Sustains g sys c)
    (hg : t.request.takesGate = true → L.Keeps t.request g sys.state q c')
    (hn : t.request.takesGate = false → L.Holds g sys.state c') :
    L.Sustains (L.noted g (m.happenings sys (sys.arrive i q))) (sys.arrive i q) c' := by
  cases hgate : t.request.takesGate with
  | false =>
    cases q with
    | conclude f => exact sustains_checked hL hp ht hgate hc h (hn hgate)
    | await d call resume =>
      exact sustains_await hL ht hc h (hn hgate) fun hg => by simp [hgate] at hg
  | true =>
    have hk := hg hgate
    cases q with
    | conclude f => exact sustains_conclude ho ht hgate hc hk
    | await d call resume => exact sustains_await hL ht hc h hk.1 fun _ => hk.2

theorem Sustains.heard {w : World} (hL : L.Sound settings allowed)
    (h : L.Sustains g sys w.toCollaborators) :
    L.Sustains g (w.step fun _ => sys).system (w.step fun _ => sys).toCollaborators := by
  rw [World.step_system]
  rcases World.step_collaborators (w := w) fun _ => sys with hc | hc
  · exact hc ▸ h
  · exact hc ▸ ⟨hL.clears h.now, h.inCall⟩

variable {origin w w' : World} {es : List StoreEdit} {hs : List Happening}

/-- A collaborator answers whom the ledger allows to wait for it. -/
theorem Sustains.perform (h : L.Sustains g sys c) (hp : sys.Planned) (ht : sys.task? i = some t)
    {d : Discipline} {call : Call} {resume : Except Fault call.Answer → Plan}
    (hpos : t.position = .inCall d call resume) :
    ∃ a, (c.perform call).1 = .ok a ∧
      (t.request.takesGate = true →
        L.Keeps t.request g sys.state (resume (.ok a)) (c.perform call).2) ∧
      (t.request.takesGate = false → L.Holds g sys.state (c.perform call).2) := by
  cases hgate : t.request.takesGate with
  | true =>
    obtain ⟨a, ha, hk⟩ := h.inCall ht hgate hpos _ h.now
    exact ⟨a, ha, fun _ => hk, nofun⟩
  | false =>
    cases System.call_of_no_gate (hp ht hpos) hgate
    exact ⟨_, rfl, nofun, fun _ => h.now⟩

/-- A move that answers no call keeps the ledger. -/
theorem sustains_move (hL : L.Sound sys.settings allowed) (ho : sys.Orderly) (hp : sys.Planned)
    (h : L.Sustains g sys c) (hm : sys.Step m sys') (ha : ∀ i a, m ≠ .answer i a) :
    L.Sustains (L.noted g (m.happenings sys sys')) sys' c := by
  cases hm with
  | arrive ht hc =>
    refine sustains_arrive hL ho hp ht hc h (fun hg => ?_) fun _ => h.now
    cases hc with
    | turn => exact hL.serves hg h.now
    | answer => exact absurd rfl (ha _ _)
  | issue r fired => exact sustains_quiet hL (.issue r fired) h (by rintro _ _ _ ⟨⟩)
  | fire i => exact sustains_quiet hL (.fire i) h (by rintro _ _ _ ⟨⟩)
  | drop ht => exact sustains_quiet hL (.drop ht) h (by rintro _ _ _ ⟨⟩)
  | approach ht hw hg => exact sustains_quiet hL (.approach ht hw hg) h (by rintro _ _ _ ⟨⟩)
  | giveUp ht hpos hf => exact sustains_quiet hL (.giveUp ht hpos hf) h (by rintro _ _ _ ⟨⟩)

/-- A collaborator does its work, and the task that waits for it goes on with the answer. -/
theorem sustains_answer {call : Call} (hL : L.Sound sys.settings allowed) (ho : sys.Orderly)
    (hp : sys.Planned) (h : L.Sustains g sys c)
    (hm : sys.Step (.answer i ⟨call, (c.perform call).1⟩) sys') :
    L.Sustains (L.noted g ((Move.answer i ⟨call, (c.perform call).1⟩).happenings sys sys')) sys'
      (c.perform call).2 := by
  cases hm with
  | arrive ht hc =>
    cases hc with
    | answer hpos =>
      obtain ⟨a, ha, hk, hn⟩ := h.perform hp ht hpos
      simp only [ha]
      exact sustains_arrive hL ho hp ht (.answer hpos (.ok a)) h hk hn

theorem sustains_step (hL : L.Sound w.system.settings allowed) (ho : w.system.Orderly)
    (hp : w.system.Planned) (hprov : w.provided = none)
    (h : L.Sustains g w.system w.toCollaborators) (hw : w.Step es hs w')
    (he : ∀ e ∈ es, allowed e) :
    L.Sustains (L.noted g hs) w'.system w'.toCollaborators := by
  cases hw with
  | move hm ha => exact (sustains_move hL ho hp h hm ha).heard hL
  | answer hm =>
    refine Sustains.heard hL ?_
    rw [World.perform_eq hprov] at hm ⊢
    exact sustains_answer hL ho hp h hm
  | edit e => exact ⟨hL.edits (he e List.mem_cons_self) h.now, h.inCall⟩
  | note => exact h

/-- The ledger holds in every run. -/
theorem sustains_run (hL : L.Sound origin.system.settings allowed) (ho : origin.IsFresh)
    (h0 : L.Holds g .noSession origin.toCollaborators) (h : origin.Run es hs w)
    (he : ∀ e ∈ es, allowed e) :
    L.Sustains (L.noted g hs) w.system w.toCollaborators := by
  induction h with
  | nil =>
    refine ⟨ho.state ▸ h0, fun ht => ?_⟩
    simp [System.task?, ho.system.tasks] at ht
  | snoc h hw ih =>
    rw [noted_append]
    refine sustains_step (h.system.settings ▸ hL) (h.system.orderly ho.system)
      (h.system.planned ho.system) (h.provided ho.provided) (ih fun e hm => ?_) hw fun e hm => ?_
    · exact he e (List.mem_append_left _ hm)
    · exact he e (List.mem_append_right _ hm)

theorem answered_step (hp : w.system.Planned) (hprov : w.provided = none)
    (h : L.Sustains g w.system w.toCollaborators) (hw : w.Step es hs w') {a : Answered}
    (ha : .answered i a ∈ hs) : ∃ x, a.result = .ok x := by
  cases hw with
  | move hm hn => exact absurd (System.answered_of_mem ha) (hn _ _)
  | answer hm =>
    cases System.answered_of_mem ha
    cases hm with
    | arrive ht hc =>
      cases hc with
      | answer hpos =>
        obtain ⟨x, hx, -⟩ := h.perform hp ht hpos
        exact ⟨x, by rw [World.perform_eq hprov]; exact hx⟩
  | edit => cases ha
  | note => cases ha

/-- No call of a request fails. -/
theorem answered_ok (hL : L.Sound origin.system.settings allowed) (ho : origin.IsFresh)
    (h0 : L.Holds g .noSession origin.toCollaborators) (h : origin.Run es hs w)
    (he : ∀ e ∈ es, allowed e) {a : Answered} (ha : .answered i a ∈ hs) :
    ∃ x, a.result = .ok x := by
  induction h with
  | nil => cases ha
  | snoc h hw ih =>
    have he' := fun e hm => he e (List.mem_append_left _ hm)
    rcases List.mem_append.mp ha with ha | ha
    · exact ih he' ha
    · exact answered_step (h.system.planned ho.system) (h.provided ho.provided)
        (sustains_run hL ho h0 h he') hw ha

end Ledger

end LiveEdit.Kernel
