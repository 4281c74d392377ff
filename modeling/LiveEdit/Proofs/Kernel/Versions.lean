import LiveEdit.Proofs.Kernel.Ledger
import LiveEdit.Proofs.Kernel.Publication

/-!
Versions never go back. Snapshots are fetched in one step and kept in a later one, while the store
is edited, sessions end and others start, and the engine answers what it likes. What carries it is
that nothing in the session is newer than a fetched snapshot until its request ends, as nobody
else holds the gate.
-/
namespace LiveEdit

namespace SessionState

def committed? (s : SessionState) : Option Snapshot := s.session?.map (·.committed)

def pending? (s : SessionState) : Option Snapshot := s.session?.bind (·.pending)

theorem has_iff {s : SessionState} {P : Snapshot → Prop} : s.Has P ↔
    (∀ p, s.committed? = some p → P p) ∧ ∀ p, s.pending? = some p → P p := by
  cases s with
  | active session =>
    constructor
    · intro h
      obtain ⟨hcommitted, hpending⟩ := h session rfl
      refine ⟨?_, hpending⟩
      rintro _ ⟨⟩
      exact hcommitted
    · rintro ⟨hcommitted, hpending⟩ _ ⟨⟩
      exact ⟨hcommitted _ rfl, hpending⟩
  | _ => exact iff_of_true nofun ⟨nofun, nofun⟩

end SessionState

namespace Kernel

/-- What an edit has the store publish. -/
def StoreEdit.published (e : StoreEdit) (store : Store) : List Snapshot :=
  if (e.apply store).current = store.current then [] else [(e.apply store).current]

namespace World

/-- A step over a store, with any engine, and what the store publishes and the log has of it. -/
inductive FreeStep (w : World) : List Snapshot → List Happening → World → Prop
  | move {m : Move} {sys : System} (hm : w.system.Step m sys)
      (ha : ∀ i r, m = .answer i ⟨.currentSnapshot, r⟩ → r = .ok w.store.current) :
    FreeStep w [] (m.happenings w.system sys) (w.step fun _ => sys)
  | edit (e : StoreEdit) : FreeStep w (e.published w.store) [] { w with store := e.apply w.store }

/-- A run over a store, with any engine: all that the store published in it, and its log. -/
inductive FreeRun (origin : World) : List Snapshot → List Happening → World → Prop
  | nil : FreeRun origin [origin.store.current] [] origin
  | snoc {ps ps' : List Snapshot} {hs hs' : List Happening} {w w' : World}
      (h : FreeRun origin ps hs w) (hw : w.FreeStep ps' hs' w') :
    FreeRun origin (ps ++ ps') (hs ++ hs') w'

end World

/-- The snapshots that requests left in one place of the session, one after the other. -/
def leftIn (place : SessionState → Option Snapshot) (hs : List Happening) : List Snapshot :=
  (completionsOf hs).filterMap fun c => place c.after

variable {origin w w' : World} {ps ps' : List Snapshot} {hs es : List Happening}
  {sys sys' : System} {s : SessionState} {p : Snapshot} {m : Move}
  {place : SessionState → Option Snapshot} {P : Snapshot → Prop}

theorem World.step_current (f : System → System) :
    (w.step f).store.current = w.store.current := by
  rcases World.step_collaborators (w := w) f with hc | hc <;> rw [hc]
  rfl

theorem World.FreeStep.fetch {i : Nat}
    (hm : w.system.Step (.answer i ⟨.currentSnapshot, .ok w.store.current⟩) sys) :
    w.FreeStep [] ((Move.answer i ⟨.currentSnapshot, .ok w.store.current⟩).happenings w.system sys)
      (w.step fun _ => sys) := by
  refine .move hm ?_
  rintro _ _ ⟨⟩
  rfl

/-- The coordinator makes a run of its own. -/
theorem World.FreeRun.system (h : origin.FreeRun ps hs w) : origin.system.Run hs w.system := by
  induction h with
  | nil => exact .nil
  | snoc h hw ih =>
    cases hw with
    | move hm => exact World.step_system _ ▸ ih.snoc hm
    | edit => exact (List.append_nil _).symm ▸ ih

theorem World.FreeRun.takesTurn (h : origin.FreeRun ps hs w) (r : Request)
    (hg : r.takesGate = true) (hgate : w.system.gate = {})
    (hquiet : (w.system.turn r).history = w.system.history)
    (hh : w.system.history.length = w.heard) :
    ∃ hs', origin.FreeRun ps (hs ++ hs') { w with system := w.system.turn r } := by
  refine System.turn_of_moves
    (P := fun sys => ∃ hs', origin.FreeRun ps (hs ++ hs') { w with system := sys })
    ⟨[], (List.append_nil hs).symm ▸ h⟩ hg hgate hquiet ?_
  rintro u v m ⟨hs', hu⟩ hm hgo hv
  have hrun := hu.snoc (.move hm (by rintro i r rfl; cases hgo))
  rw [World.step_quiet (hv ▸ hh), List.append_nil, List.append_assoc] at hrun
  exact ⟨_, hrun⟩

/-- The publications of a store, with rising versions, up to the current snapshot. -/
structure Rises (ps : List Snapshot) (current : Snapshot) : Prop where
  rising : ps.Pairwise (·.version < ·.version)
  last : ps.getLast? = some current
  bounded : ∀ p ∈ ps, p.version ≤ current.version

theorem rises_edit {store : Store} (h : Rises ps store.current) (e : StoreEdit) :
    Rises (ps ++ e.published store) (e.apply store).current := by
  have unchanged (hsame : (e.apply store).current = store.current) :
      Rises (ps ++ e.published store) (e.apply store).current := by
    rw [StoreEdit.published, if_pos hsame, List.append_nil, hsame]
    exact h
  rcases e.apply_cases store with heq | heq | ⟨documents, heq⟩
  · exact unchanged (by rw [heq])
  · exact unchanged (by rw [heq]; rfl)
  · have hlt : ∀ p ∈ ps, p.version < (store.publish documents).current.version :=
      fun p hp => Nat.lt_succ_of_le (h.bounded p hp)
    have hne : (store.publish documents).current ≠ store.current := fun hsame =>
      absurd (congrArg Snapshot.version hsame) (Nat.succ_ne_self _)
    rw [StoreEdit.published, heq, if_neg hne]
    refine ⟨List.pairwise_append.mpr ⟨h.rising, List.pairwise_singleton .., ?_⟩,
      List.getLast?_concat, ?_⟩
    · intro p hp q hq
      exact List.mem_singleton.mp hq ▸ hlt p hp
    · intro p hp
      rcases List.mem_append.mp hp with hp | hp
      · exact Nat.le_of_lt (hlt p hp)
      · exact List.mem_singleton.mp hp ▸ Nat.le_refl _

theorem World.FreeRun.rises (h : origin.FreeRun ps hs w) : Rises ps w.store.current := by
  induction h with
  | nil =>
    refine ⟨List.pairwise_singleton .., rfl, fun p hp => ?_⟩
    exact List.mem_singleton.mp hp ▸ Nat.le_refl _
  | snoc h hw ih =>
    cases hw with
    | move => exact (List.append_nil _).symm ▸ (World.step_current _).symm ▸ ih
    | edit e => exact rises_edit ih e

theorem Rises.mem (h : Rises ps p) : p ∈ ps := List.mem_of_getLast? h.last

/-- The provider answers with what the store has published. -/
theorem World.FreeRun.provided (h : origin.FreeRun ps hs w) (hp : Provided hs p) : p ∈ ps := by
  induction h with
  | nil => simp [Provided] at hp
  | snoc h hw ih =>
    obtain ⟨i, hi⟩ := hp
    rcases List.mem_append.mp hi with hi | hi
    · exact List.mem_append_left _ (ih ⟨i, hi⟩)
    · cases hw with
      | move hm ha =>
        cases ha _ _ (System.answered_of_mem hi)
        exact List.mem_append_left _ h.rises.mem
      | edit => simp at hi

theorem leftIn_append : leftIn place (hs ++ es) = leftIn place hs ++ leftIn place es := by
  rw [leftIn, Ledger.completionsOf_append, List.filterMap_append]
  rfl

/-- Requests that all leave one session leave what is in it. -/
theorem place_of_leftIn (hes : ∀ c ∈ completionsOf es, c.after = s) (hp : p ∈ leftIn place es) :
    place s = some p := by
  obtain ⟨c, hc, hp⟩ := List.mem_filterMap.mp hp
  exact hes c hc ▸ hp

theorem forall_leftIn_append (h : ∀ p ∈ leftIn place hs, P p)
    (hes : ∀ c ∈ completionsOf es, c.after = s) (hs' : ∀ p, place s = some p → P p) :
    ∀ p ∈ leftIn place (hs ++ es), P p := by
  intro p hp
  rw [leftIn_append] at hp
  rcases List.mem_append.mp hp with hp | hp
  · exact h p hp
  · exact hs' p (place_of_leftIn hes hp)

/-- Requests that all leave one session, with a snapshot as new as any before, go on rising. -/
theorem pairwise_leftIn_append (h : (leftIn place hs).Pairwise (·.version ≤ ·.version))
    (hes : ∀ c ∈ completionsOf es, c.after = s)
    (hs' : ∀ q, place s = some q → ∀ p ∈ leftIn place hs, p.version ≤ q.version) :
    (leftIn place (hs ++ es)).Pairwise (·.version ≤ ·.version) := by
  rw [leftIn_append]
  refine List.pairwise_append.mpr ⟨h, List.pairwise_of_forall_mem_list fun p hp q hq => ?_, ?_⟩
  · cases (place_of_leftIn hes hp).symm.trans (place_of_leftIn hes hq)
    exact Nat.le_refl _
  · exact fun p hp q hq => hs' q (place_of_leftIn hes hq) p hp

/-- No snapshot of the log or of the session is newer than this one. -/
structure Newest (hs : List Happening) (s : SessionState) (p : Snapshot) : Prop where
  committed : ∀ q ∈ leftIn SessionState.committed? hs, q.version ≤ p.version
  pending : ∀ q ∈ leftIn SessionState.pending? hs, q.version ≤ p.version
  session : s.Has fun q => q.version ≤ p.version

/-- The session goes on from where the log is. -/
structure Continues (hs : List Happening) (session : ActiveSession) : Prop where
  committed : ∀ q ∈ leftIn SessionState.committed? hs, q.version ≤ session.committed.version
  pending {p : Snapshot} (hp : session.pending = some p) :
    session.committed.version ≤ p.version ∧
      ∀ q ∈ leftIn SessionState.pending? hs, q.version ≤ p.version

/-- Nothing in the log goes back, nor will it: calls are about the newest snapshots. -/
structure Ascends (hs : List Happening) (sys : System) : Prop where
  committed : (leftIn SessionState.committed? hs).Pairwise (·.version ≤ ·.version)
  pending : (leftIn SessionState.pending? hs).Pairwise (·.version ≤ ·.version)
  session {session : ActiveSession} (h : sys.state = .active session) : Continues hs session
  target {i : Nat} {t : Task} {d : Discipline} {call : Call}
    {resume : Except Fault call.Answer → Plan} {p : Snapshot} (ht : sys.task? i = some t)
    (hp : t.position = .inCall d call resume) (htarget : call.target? = some p) :
    Newest hs sys.state p

theorem Newest.append (h : Newest hs s p) (hes : ∀ c ∈ completionsOf es, c.after = s) :
    Newest (hs ++ es) s p where
  committed := forall_leftIn_append h.committed hes (SessionState.has_iff.mp h.session).1
  pending := forall_leftIn_append h.pending hes (SessionState.has_iff.mp h.session).2
  session := h.session

theorem Continues.append {session : ActiveSession} (h : Continues hs session)
    (hes : ∀ c ∈ completionsOf es, c.after = .active session) : Continues (hs ++ es) session where
  committed := by
    refine forall_leftIn_append h.committed hes ?_
    rintro _ ⟨⟩
    exact Nat.le_refl _
  pending {p} hp := by
    refine ⟨(h.pending hp).1, forall_leftIn_append (h.pending hp).2 hes fun q hq => ?_⟩
    cases hp.symm.trans hq
    exact Nat.le_refl _

/-- What a success leaves goes on from the log, if its call is about the newest snapshot. -/
theorem continues_success {r : Request} {a : Answered} {c : Conclusion} {session : ActiveSession}
    (h : Success s r a c) (hs' : ∀ session, s = .active session → Continues hs session)
    (ht : ∀ p, a.call.target? = some p → Newest hs s p) (hc : c.state = .active session) :
    Continues hs session := by
  cases h with
  | starts baseline _ _ _ _ hc' =>
    cases hc.symm.trans hc'
    exact ⟨(ht baseline rfl).committed, nofun⟩
  | breaks _ hs _ hc' =>
    cases hc.symm.trans hc'
    exact ⟨(hs' _ hs).committed, (hs' _ hs).pending⟩
  | computes latest update hs _ hc' =>
    have hnewest := ht latest rfl
    have hbefore := hs' _ hs
    rw [hc'] at hc
    split at hc
    · cases hc
      refine ⟨hbefore.committed, ?_⟩
      rintro _ ⟨⟩
      exact ⟨(hnewest.session _ hs).1, hnewest.pending⟩
    · cases hs.symm.trans hc
      exact hbefore
  | commits hs hp _ hc' =>
    cases hc.symm.trans hc'
    have hbefore := hs' _ hs
    refine ⟨fun q hq => ?_, nofun⟩
    exact Nat.le_trans (hbefore.committed q hq) (hbefore.pending hp).1
  | discards hs _ _ hc' =>
    cases hc.symm.trans hc'
    exact ⟨(hs' _ hs).committed, nofun⟩
  | finishes _ _ hc' => cases hc.symm.trans hc'

/-- The log goes on rising, if what its new requests leave goes on from it. -/
theorem ascends_append (h : Ascends hs sys) (hes : ∀ c ∈ completionsOf es, c.after = sys'.state)
    (hsession : ∀ session, sys'.state = .active session → Continues hs session)
    (htarget : ∀ {i t d call resume p}, sys'.task? i = some t →
      t.position = .inCall d call resume → call.target? = some p → Newest hs sys'.state p) :
    Ascends (hs ++ es) sys' where
  committed := by
    refine pairwise_leftIn_append h.committed hes ?_
    generalize sys'.state = s at hsession
    cases s with
    | active session =>
      rintro _ ⟨⟩
      exact (hsession session rfl).committed
    | _ => exact nofun
  pending := by
    refine pairwise_leftIn_append h.pending hes ?_
    generalize sys'.state = s at hsession
    cases s with
    | active session => exact fun p hp => ((hsession session rfl).pending hp).2
    | _ => exact nofun
  session hs := (hsession _ hs).append (hs ▸ hes)
  target ht hp hc := (htarget ht hp hc).append hes

/-- The end of a request leaves the session as the step does. -/
theorem after_of_mem {c : Completion} (hc : c ∈ completionsOf (m.happenings sys sys')) :
    c.after = sys'.state := by
  obtain ⟨i, hi⟩ := Ledger.mem_completionsOf.mp hc
  have arrived {j : Nat} (h : .replied i c ∈ sys.arrival sys' j) : c.after = sys'.state := by
    rw [System.arrival] at h
    split at h
    · cases List.mem_singleton.mp h
    · cases List.mem_singleton.mp h
      rfl
    · cases h
  cases m with
  | issue | fire | drop => cases hi
  | approach | takeTurn | answer | giveUp =>
    exact arrived ((List.mem_append.mp hi).resolve_left System.replied_not_mem_opening)

theorem continues_conclude {i : Nat} {t : Task} {f : SessionState → Conclusion} (hp : sys.Planned)
    (h : Ascends hs sys) (ht : sys.task? i = some t) (hg : t.request.takesGate = true)
    (hc : sys.Comes i t m (.conclude f)) {session : ActiveSession}
    (hs' : (f sys.state).state = .active session) : Continues hs session := by
  obtain ⟨rfl, -, hplan⟩ | ⟨d, call, resume, result, rfl, hin, hend⟩ := hc.inv
  · rcases conclude_of_turn hg hplan with ⟨reply, -, rfl⟩ | ⟨v, -, -, -, hd⟩
    · exact h.session hs'
    · cases hd
      cases hs'
  · have hcall := (hp ht hin).awaiting hg
    cases result with
    | ok x =>
      refine continues_success (hcall.success hend) (fun _ => h.session) (fun p => ?_) hs'
      exact h.target ht hin
    | error fault => cases (hcall.disables hend).symm.trans hs'

theorem ascends_step (hm : sys.Step m sys') (ho : sys.Orderly) (hp : sys.Planned)
    (h : Ascends hs sys)
    (hnew : ∀ {i p}, m = .answer i ⟨.currentSnapshot, .ok p⟩ → Newest hs sys.state p) :
    Ascends (hs ++ m.happenings sys sys') sys' := by
  have hes : ∀ c ∈ completionsOf (m.happenings sys sys'), c.after = sys'.state :=
    fun c => after_of_mem
  have quiet (hs' : sys'.state = sys.state) : Ascends (hs ++ m.happenings sys sys') sys' := by
    refine ascends_append h hes (fun session hs => h.session (hs' ▸ hs)) fun ht hin htarget => ?_
    obtain ⟨u, hu, -, hsame | hc⟩ := System.inCall_step hm ht hin
    · exact hs' ▸ h.target hu (hsame.trans hin) htarget
    · exact hs' ▸ hnew (System.answer_of_target hp hu hc htarget)
  cases System.step_entry hm with
  | silent _ hs' => exact quiet hs'
  | cancels => exact quiet rfl
  | calls => exact quiet rfl
  | @concludes i t f ht hc =>
    cases hg : t.request.takesGate with
    | false => exact quiet (System.state_of_no_gate (System.onCourse_of_comes hp ht hc) hg _).1
    | true =>
      -- The session may be another one now, but no call about the one before is left.
      refine ascends_append h hes (fun session => continues_conclude hp h ht hg hc) ?_
      intro j u d call resume p hu hin htarget
      have hp' := System.planned_step hm ho hp
      cases hgu : u.request.takesGate with
      | false =>
        obtain rfl := System.call_of_no_gate (hp' hu hin) hgu
        cases htarget
      | true => exact absurd hin (ho.no_call_left ht hg hc hu hgu)

/-- The session's snapshots are ones that the store published. -/
theorem World.FreeRun.has (h : origin.FreeRun ps hs w) (ho : origin.system.IsFresh)
    (hn : origin.system.state = .noSession) : w.system.state.Has (· ∈ ps) :=
  (h.system.has ho hn).mono fun _ => h.provided

theorem World.FreeRun.logged (h : origin.FreeRun ps hs w) (ho : origin.system.IsFresh)
    (hn : origin.system.state = .noSession) :
    (∀ p ∈ leftIn SessionState.committed? hs, p ∈ ps) ∧
      ∀ p ∈ leftIn SessionState.pending? hs, p ∈ ps := by
  induction h with
  | nil => exact ⟨fun _ hp => absurd hp List.not_mem_nil, fun _ hp => absurd hp List.not_mem_nil⟩
  | @snoc ps ps' hs hs' w w' h hw ih =>
    have hhas := SessionState.has_iff.mp ((h.snoc hw).has ho hn)
    have hes : ∀ c ∈ completionsOf hs', c.after = w'.system.state := by
      cases hw with
      | move =>
        rw [World.step_system]
        exact fun _ => after_of_mem
      | edit => exact fun _ hc => absurd hc List.not_mem_nil
    exact ⟨forall_leftIn_append (fun p hp => List.mem_append_left _ (ih.1 p hp)) hes hhas.1,
      forall_leftIn_append (fun p hp => List.mem_append_left _ (ih.2 p hp)) hes hhas.2⟩

/-- Nothing is newer than the store's current snapshot. -/
theorem World.FreeRun.newest (h : origin.FreeRun ps hs w) (ho : origin.system.IsFresh)
    (hn : origin.system.state = .noSession) : Newest hs w.system.state w.store.current where
  committed p hp := h.rises.bounded p ((h.logged ho hn).1 p hp)
  pending p hp := h.rises.bounded p ((h.logged ho hn).2 p hp)
  session := (h.has ho hn).mono h.rises.bounded

theorem World.FreeRun.ascends (h : origin.FreeRun ps hs w) (ho : origin.system.IsFresh)
    (hn : origin.system.state = .noSession) : Ascends hs w.system := by
  induction h with
  | nil =>
    refine ⟨.nil, .nil, fun hs => ?_, fun ht => ?_⟩
    · cases hn.symm.trans hs
    · simp [System.task?, ho.tasks] at ht
  | snoc h hw ih =>
    cases hw with
    | move hm ha =>
      rw [World.step_system]
      refine ascends_step hm (h.system.orderly ho) (h.system.planned ho) ih fun heq => ?_
      cases ha _ _ heq
      exact h.newest ho hn
    | edit => exact (List.append_nil _).symm ▸ ih

/-- What is in the session now was left there by the last request that left anything. -/
theorem last_leftIn {start : System} (h : start.Run hs sys) (hstart : place start.state = none)
    (hp : place sys.state = some p) : (leftIn place hs).getLast? = some p := by
  induction h with
  | nil => cases hstart.symm.trans hp
  | @snoc hs sys sys' m h hm ih =>
    have quiet (hnone : completionsOf (m.happenings sys sys') = []) (hs' : sys'.state = sys.state) :
        (leftIn place (hs ++ m.happenings sys sys')).getLast? = some p := by
      have hleft : leftIn place (m.happenings sys sys') = [] := by rw [leftIn, hnone]; rfl
      rw [leftIn_append, hleft, List.append_nil]
      exact ih (hs' ▸ hp)
    have ended (hone : ∃ c, completionsOf (m.happenings sys sys') = [c]) :
        (leftIn place (hs ++ m.happenings sys sys')).getLast? = some p := by
      obtain ⟨c, hone⟩ := hone
      have hc : c.after = sys'.state := after_of_mem (by rw [hone]; exact List.mem_cons_self)
      have hlast : leftIn place (m.happenings sys sys') = [p] := by
        simp [leftIn, hone, hc, hp]
      rw [leftIn_append, hlast]
      exact List.getLast?_concat
    cases System.step_entry hm with
    | silent hl hs' => exact quiet (by rw [hl]; rfl) hs'
    | cancels ht _ hq =>
      refine ended ?_
      rw [hq.happenings ht, Ledger.completionsOf_append, Ledger.completionsOf_opening]
      exact ⟨_, rfl⟩
    | calls ht hc =>
      refine quiet ?_ rfl
      rw [hc.happenings_call ht, Ledger.completionsOf_append, Ledger.completionsOf_opening]
      rfl
    | concludes ht hc =>
      refine ended ?_
      rw [hc.happenings_conclude ht, Ledger.completionsOf_append, Ledger.completionsOf_opening]
      exact ⟨_, rfl⟩

/-- No snapshot gives way to an older one, and all were published by the store as they are. -/
structure NeverGoesBack (ps : List Snapshot) (hs : List Happening) (w : World) : Prop where
  published : Rises ps w.store.current
  active {session : ActiveSession} (hs' : w.system.state = .active session) :
    session.committed ∈ ps ∧ session.committed.version ≤ w.store.current.version
  pending {session : ActiveSession} {p : Snapshot} (hs' : w.system.state = .active session)
    (hp : session.pending = some p) : p ∈ ps ∧ session.committed.version ≤ p.version ∧
      p.version ≤ w.store.current.version
  /-- All that was ever committed, from one session to the next. -/
  committedAll : (∀ p ∈ leftIn SessionState.committed? hs, p ∈ ps) ∧
    (leftIn SessionState.committed? hs).Pairwise (·.version ≤ ·.version)
  pendingAll : (∀ p ∈ leftIn SessionState.pending? hs, p ∈ ps) ∧
    (leftIn SessionState.pending? hs).Pairwise (·.version ≤ ·.version)
  /-- The log ends with what the session has now. -/
  now {session : ActiveSession} (hs' : w.system.state = .active session) :
    (leftIn SessionState.committed? hs).getLast? = some session.committed ∧
      ∀ p, session.pending = some p → (leftIn SessionState.pending? hs).getLast? = some p

/-- In every run over one store, with any engine, versions never go back. -/
theorem versions_never_go_back (h : origin.FreeRun ps hs w) (ho : origin.system.IsFresh)
    (hn : origin.system.state = .noSession) : NeverGoesBack ps hs w := by
  have hascends := h.ascends ho hn
  have hhas := h.has ho hn
  constructor
  case published => exact h.rises
  case active =>
    intro session hs'
    have hmem := (hhas session hs').1
    exact ⟨hmem, h.rises.bounded _ hmem⟩
  case pending =>
    intro session p hs' hp
    have hmem := (hhas session hs').2 p hp
    exact ⟨hmem, ((hascends.session hs').pending hp).1, h.rises.bounded _ hmem⟩
  case committedAll => exact ⟨(h.logged ho hn).1, hascends.committed⟩
  case pendingAll => exact ⟨(h.logged ho hn).2, hascends.pending⟩
  case now =>
    intro session hs'
    refine ⟨last_leftIn h.system (by rw [hn]; rfl) (by rw [hs']; rfl), fun p hp => ?_⟩
    exact last_leftIn h.system (by rw [hn]; rfl) (by rw [hs']; exact hp)

/-- In the blank world a session starts, whatever engine says so. -/
theorem blank_starts_free : ∃ ps hs, World.blank.FreeRun ps hs
    { World.blank.started with engine := .new } := by
  have fresh : World.blank.FreeRun [World.blank.store.current] [] World.blank := .nil
  obtain ⟨_, begun⟩ := fresh.takesTurn .start rfl rfl rfl rfl
  have fetched := begun.snoc (.fetch (.arrive (i := 0) rfl (.answer rfl _)))
  have started := fetched.snoc
    (.move (.arrive (i := 0) rfl (.answer rfl (.ok (⟨1⟩ : EngineSessionId)))) (by rintro _ _ ⟨⟩))
  exact ⟨_, _, started⟩

/-- A snapshot that is fetched before an edit is committed after it. -/
theorem edited_while_computing : ∃ ps hs w session, World.blank.FreeRun ps hs w ∧
    w.system.state = .active session ∧ session.committed.version = 2 ∧
      w.store.current.version = 3 ∧ NeverGoesBack ps hs w := by
  obtain ⟨ps, hs, started⟩ := blank_starts_free
  have edited := started.snoc (.edit (.upsert ⟨.ofText "main.src", "app", "one", false⟩))
  obtain ⟨_, begun⟩ := edited.takesTurn .getUpdates rfl rfl rfl rfl
  have fetched := begun.snoc (.fetch (.arrive (i := 1) rfl (.answer rfl _)))
  have edited := fetched.snoc (.edit (.upsert ⟨.ofText "other.src", "app", "two", false⟩))
  have computed := edited.snoc
    (.move (.arrive (i := 1) rfl (.answer rfl (.ok ({} : Update)))) (by rintro _ _ ⟨⟩))
  obtain ⟨_, begun⟩ := computed.takesTurn .commit rfl rfl rfl rfl
  have committed := begun.snoc
    (.move (.arrive (i := 2) rfl (.answer rfl (.ok ()))) (by rintro _ _ ⟨⟩))
  exact ⟨_, _, _, _, committed, rfl, rfl, rfl,
    versions_never_go_back committed World.blank_isFresh.system rfl⟩

end Kernel

end LiveEdit
