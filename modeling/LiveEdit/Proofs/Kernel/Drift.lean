import LiveEdit.Proofs.Kernel.Late

/-! The engine and its coordinator drift apart only if an answer is lost that does harm. -/
namespace LiveEdit.Kernel

/-- The answer that is owed may be lost or not: both end well. Else the engine is near. -/
structure Sustains (sys : System) (engine : ChecksumEngine) (owed : Option (Nat × Answered)) :
    Prop where
  near (h : owed = none) : Near engine sys.state
  inCall {i : Nat} {t : Task} {d : Discipline} {call : Call}
    {resume : Except Fault call.Answer → Plan} (ht : sys.task? i = some t)
    (hg : t.request.takesGate = true) (hp : t.position = .inCall d call resume) :
    Serves t.request sys.state call resume
  owing {i : Nat} {a : Answered} (h : owed = some (i, a)) : a.call.asksEngine = true ∧
    ∃ t d resume, sys.task? i = some t ∧ t.request.takesGate = true ∧
      t.position = .inCall d a.call resume ∧ (Harmless sys.state a → Near engine sys.state) ∧
      Survives t.request sys.state (resume a.result) engine

/-- All commits that a log tells of left the engine in step. -/
def Promotes (hs : List Happening) (engine : ChecksumEngine) : Prop :=
  ∀ i c, .replied i c ∈ hs → Promoted engine c

variable {engine engine' : ChecksumEngine} {c : Collaborators} {sys sys' : System} {m : Move}
  {i : Nat} {t : Task} {a : Answered} {q : Plan}
  {owed : Option (Nat × Answered)} {hs : List Happening}
  {lost : List (SessionState × Answered)} {origin : World} {w w' : LateWorld}

theorem promotes_nil : Promotes [] engine := fun _ _ => nofun

theorem Sustains.inCall_step (h : Sustains sys engine owed) (hm : sys.Step m sys')
    (hs : sys'.state = sys.state)
    (hnew : ∀ {j u d call resume}, sys.task? j = some u → u.request.takesGate = true →
      sys.Comes j u m (.await d call resume) → Serves u.request sys.state call resume)
    {d : Discipline} {call : Call} {resume : Except Fault call.Answer → Plan}
    (ht : sys'.task? i = some t) (hg : t.request.takesGate = true)
    (hp : t.position = .inCall d call resume) : Serves t.request sys'.state call resume := by
  obtain ⟨u, hu, hr, hcase⟩ := System.inCall_step hm ht hp
  rw [hs, ← hr]
  rcases hcase with hpu | hcomes
  · exact h.inCall hu (hr ▸ hg) (hpu.trans hp)
  · exact hnew hu (hr ▸ hg) hcomes

/-- Who comes to a plan, having the gate, is no longer owed an answer. -/
theorem Sustains.owed_eq (h : Sustains sys engine owed) (ho : sys.Orderly)
    (ht : sys.task? i = some t) (hg : t.request.takesGate = true) (hc : sys.Comes i t m q)
    (hn : ∀ {d call resume}, t.position = .inCall d call resume → call.asksEngine = false) :
    owed = none := by
  refine Option.eq_none_iff_forall_ne_some.mpr fun ⟨j, a⟩ ha => ?_
  obtain ⟨hcall, u, d, resume, hu, hgu, hp, -⟩ := h.owing ha
  cases (ho.holder_of_comes ht hc hg).symm.trans (ho.inCall hu hgu hp)
  cases ht.symm.trans hu
  exact Bool.false_ne_true ((hn hp).symm.trans hcall)

theorem state_of_quiet (hm : sys.Step m sys') (hp : sys.Planned)
    (hq : ∀ i t q, sys.task? i = some t → t.request.takesGate = true → ¬ sys.Comes i t m q) :
    sys'.state = sys.state := by
  cases System.step_change hm with
  | concludes ht hc =>
    have hg := Bool.eq_false_iff.mpr fun hg => hq _ _ _ ht hg hc
    exact (System.state_of_no_gate (System.onCourse_of_comes hp ht hc) hg _).1
  | _ => rfl

/-- Without the gate no commit comes to its end. -/
theorem promotes_quiet (hm : sys.Step m sys')
    (hq : ∀ i t q, sys.task? i = some t → t.request.takesGate = true → ¬ sys.Comes i t m q) :
    Promotes (m.happenings sys sys') engine := by
  intro i c hi hr hd
  obtain ⟨t, ht, hrep⟩ := System.replies_of_mem hm hi
  cases hrep with
  | cancels => cases hd
  | concludes hc => exact absurd hc (hq _ _ _ ht (by rw [show t.request = .commit from hr]; rfl))

/-- What brings no task with the gate to its plan changes nothing for the engine. -/
theorem sustains_quiet (hm : sys.Step m sys') (hp : sys.Planned)
    (hq : ∀ i t q, sys.task? i = some t → t.request.takesGate = true → ¬ sys.Comes i t m q)
    (h : Sustains sys engine owed)
    (hl : ∀ i a, owed = some (i, a) → (∀ b, m ≠ .answer i b) ∧ m ≠ .giveUp i ∧ m ≠ .drop i) :
    Sustains sys' engine owed := by
  have hs := state_of_quiet hm hp hq
  refine ⟨fun hn => hs ▸ h.near hn,
    h.inCall_step hm hs fun hu hg hc => absurd hc (hq _ _ _ hu hg), fun {i a} ha => ?_⟩
  obtain ⟨hcall, t, d, resume, ht, hg, hpos, hlost, hnext⟩ := h.owing ha
  obtain ⟨u, hu, hr, hpu⟩ := System.stays_inCall hm ht hpos (hl i a ha).1 (hl i a ha).2
  exact ⟨hcall, u, d, resume, hu, hr ▸ hg, hpu.trans hpos, hs ▸ hlost, hr ▸ hs ▸ hnext⟩

/-- A task with the gate comes to a plan that survives. -/
theorem sustains_arrive (h : Sustains sys engine owed) (ho : sys.Orderly)
    (ht : sys.task? i = some t) (hg : t.request.takesGate = true) (hc : sys.Comes i t m q)
    (hq : Survives t.request sys.state q engine') :
    Sustains (sys.arrive i q) engine' none ∧
      Promotes (m.happenings sys (sys.arrive i q)) engine' := by
  have hm := System.Step.arrive ht hc
  cases q with
  | conclude f =>
    refine ⟨⟨fun _ => hq.1, fun hu hgu hp => absurd hp (ho.no_call_left ht hg hc hu hgu), nofun⟩,
      fun j c hj => ?_⟩
    obtain ⟨u, hu, hrep⟩ := System.replies_of_mem hm hj
    cases hrep with
    | cancels => exact fun _ => nofun
    | concludes hc' =>
      obtain ⟨rfl, rfl, heq⟩ := hc.unique hc' ht hu
      cases heq
      exact hq.2
  | await d call resume =>
    have hs : (sys.arrive i (.await d call resume)).state = sys.state := by
      rw [System.arrive]
      split <;> rfl
    refine ⟨⟨fun _ => hs ▸ hq.1, h.inCall_step hm hs fun hu hgu hcomes => ?_, nofun⟩,
      fun j c hj => ?_⟩
    · obtain ⟨rfl, rfl, heq⟩ := hc.unique hcomes ht hu
      cases heq
      exact hq.2
    · obtain ⟨u, hu, hrep⟩ := System.replies_of_mem hm hj
      cases hrep with
      | cancels => exact fun _ => nofun
      | concludes hc' => cases (hc.unique hc' ht hu).2.2

theorem sustains_move (ho : sys.Orderly) (hp : sys.Planned) (h : Sustains sys engine owed)
    (hm : sys.Step m sys') (ha : ∀ i a, m ≠ .answer i a)
    (hl : ∀ i a, owed = some (i, a) → m ≠ .giveUp i ∧ m ≠ .drop i) :
    Sustains sys' engine owed ∧ Promotes (m.happenings sys sys') engine := by
  have quiet (hq : ∀ i t q, sys.task? i = some t → t.request.takesGate = true →
      ¬ sys.Comes i t m q) :
      Sustains sys' engine owed ∧ Promotes (m.happenings sys sys') engine :=
    ⟨sustains_quiet hm hp hq h fun i a hi => ⟨ha i, hl i a hi⟩, promotes_quiet hm hq⟩
  cases hm with
  | @arrive i t m q ht hc =>
    cases hg : t.request.takesGate with
    | false =>
      refine quiet fun j u q hu hgu hcomes => ?_
      obtain ⟨rfl, rfl, -⟩ := hc.unique hcomes ht hu
      exact Bool.false_ne_true (hg.symm.trans hgu)
    | true =>
      cases hc with
      | answer => exact absurd rfl (ha _ _)
      | turn hw hgate =>
        have hn := h.owed_eq ho ht hg (.turn hw hgate) fun hpos => by cases hw.symm.trans hpos
        rw [hn]
        exact sustains_arrive h ho ht hg (.turn hw hgate) (survives_plan hg (h.near hn))
  | _ => exact quiet (by rintro _ _ _ - - ⟨⟩)

theorem sustains_lose (hp : sys.Planned) (h : Sustains sys engine owed)
    (hm : sys.Step m sys') (ho : owed = some (i, a)) (hl : m = .giveUp i ∨ m = .drop i)
    (hlost : Harmless sys.state a) :
    Sustains sys' engine none ∧ Promotes (m.happenings sys sys') engine := by
  have hq (j : Nat) (u : Task) (q : Plan) : ¬ sys.Comes j u m q := by
    rcases hl with rfl | rfl <;> rintro ⟨⟩
  have hs := state_of_quiet hm hp fun j u q _ _ => hq j u q
  obtain ⟨-, t, d, resume, -, -, -, hnear, -⟩ := h.owing ho
  refine ⟨⟨fun _ => hs ▸ hnear hlost, h.inCall_step hm hs fun _ _ hc => absurd hc (hq _ _ _),
    nofun⟩, promotes_quiet hm fun j u q _ _ => hq j u q⟩

/-- The store's answer brings a task to its plan, and is no work of the engine. -/
theorem sustains_fetch (ho : sys.Orderly) (hp : sys.Planned) (h : Sustains sys c.engine owed)
    (hm : sys.Step (.answer i ⟨.currentSnapshot, .ok c.store.current⟩) sys') :
    Sustains sys' c.engine owed ∧
      Promotes ((Move.answer i ⟨.currentSnapshot, .ok c.store.current⟩).happenings sys sys')
        c.engine := by
  cases hm with
  | @arrive _ t _ q ht hc =>
    cases hc with
    | @answer d _ resume hpos =>
      have hc : sys.Comes i t (.answer i ⟨.currentSnapshot, .ok c.store.current⟩)
          (resume (.ok c.store.current)) := .answer hpos _
      cases hg : t.request.takesGate with
      | false =>
        have hq (j : Nat) (u : Task) (q : Plan) (hu : sys.task? j = some u)
            (hgu : u.request.takesGate = true) :
            ¬ sys.Comes j u (.answer i ⟨.currentSnapshot, .ok c.store.current⟩) q := by
          intro hcomes
          obtain ⟨rfl, rfl, -⟩ := hc.unique hcomes ht hu
          exact Bool.false_ne_true (hg.symm.trans hgu)
        refine ⟨sustains_quiet (.arrive ht hc) hp hq h fun j a hj => ⟨?_, nofun, nofun⟩,
          promotes_quiet (.arrive ht hc) hq⟩
        rintro b ⟨⟩
        obtain ⟨-, u, d, resume, hu, hgu, -⟩ := h.owing hj
        cases ht.symm.trans hu
        exact Bool.false_ne_true (hg.symm.trans hgu)
      | true =>
        have hn : owed = none := h.owed_eq ho ht hg hc fun hpos' => by
          cases hpos.symm.trans hpos'
          rfl
        rw [hn]
        exact sustains_arrive h ho ht hg hc (h.inCall ht hg hpos c (h.near hn)).2

/-- The engine's work is for a task with the gate. -/
theorem sustains_work (hp : sys.Planned) (h : Sustains sys c.engine none)
    (ht : sys.task? i = some t) {d : Discipline} {call : Call}
    {resume : Except Fault call.Answer → Plan} (hpos : t.position = .inCall d call resume)
    (hcall : call.asksEngine = true) :
    Sustains sys (c.perform call).2.engine (some (i, ⟨call, (c.perform call).1⟩)) := by
  have hg : t.request.takesGate = true := by
    refine Bool.not_eq_false _ ▸ fun hg => ?_
    cases System.call_of_no_gate (hp ht hpos) hg
    cases hcall
  obtain ⟨hlost, hnext⟩ := h.inCall ht hg hpos c (h.near rfl)
  refine ⟨nofun, h.inCall, ?_⟩
  rintro _ _ ⟨⟩
  exact ⟨hcall, t, d, resume, ht, hg, hpos, hlost, hnext⟩

theorem sustains_answer (ho : sys.Orderly) (h : Sustains sys engine owed)
    (hm : sys.Step (.answer i a) sys') (howed : owed = some (i, a)) :
    Sustains sys' engine none ∧ Promotes ((Move.answer i a).happenings sys sys') engine := by
  obtain ⟨-, t, d, resume, ht, hg, hpos, -, hnext⟩ := h.owing howed
  cases hm with
  | arrive hu hc =>
    cases hc with
    | answer hpos' result =>
      cases ht.symm.trans hu
      cases hpos.symm.trans hpos'
      exact sustains_arrive h ho ht hg (.answer hpos _) hnext

theorem sustains_step (ho : w.system.Orderly) (hp : w.system.Planned) (hprov : w.provided = none)
    (h : Sustains w.system w.engine w.owed) (hw : w.Step lost hs w')
    (hl : ∀ x ∈ lost, Harmless x.1 x.2) :
    Sustains w'.system w'.engine w'.owed ∧ Promotes hs w'.engine := by
  cases hw with
  | move hm ha hn =>
    rw [World.step_system, World.step_engine]
    exact sustains_move ho hp h hm ha hn
  | lose hm howed hleft =>
    rw [World.step_system, World.step_engine]
    exact sustains_lose hp h hm howed hleft (hl _ List.mem_cons_self)
  | fetch hm =>
    rw [World.step_system, World.step_engine]
    rw [World.perform_eq hprov] at hm ⊢
    exact sustains_fetch ho hp h hm
  | work ht hpos hcall hn =>
    rw [World.perform_eq hprov]
    rw [hn] at h
    exact ⟨sustains_work hp h ht hpos hcall, promotes_nil⟩
  | answer hm howed =>
    rw [World.step_system, World.step_engine]
    exact sustains_answer ho h hm howed
  | edit e => exact ⟨h, promotes_nil⟩

theorem sustains_run (ho : origin.IsFresh) (h : LateWorld.Run origin lost hs w)
    (hl : ∀ x ∈ lost, Harmless x.1 x.2) : Sustains w.system w.engine w.owed := by
  induction h with
  | nil =>
    refine ⟨fun _ => ?_, fun ht => ?_, nofun⟩
    · rw [ho.state]
      exact ho.sessions
    · simp [System.task?, ho.system.tasks] at ht
  | snoc h hw ih =>
    refine (sustains_step (h.system.orderly ho.system) (h.system.planned ho.system)
      (h.provided ho.provided) (ih fun x hx => ?_) hw fun x hx => ?_).1
    · exact hl x (List.mem_append_left _ hx)
    · exact hl x (List.mem_append_right _ hx)

theorem length_of_sustains (h : Sustains sys engine owed) : engine.sessions.length ≤ 1 := by
  cases owed with
  | none => exact length_of_near (h.near rfl)
  | some o =>
    obtain ⟨-, t, d, resume, -, -, -, -, hnext⟩ := h.owing rfl
    cases hq : resume o.2.result with
    | conclude f => exact length_of_near (hq ▸ hnext).1
    | await d call resume => exact length_of_near (hq ▸ hnext).1

/-- In the blank world a session starts, though the engine answers late. -/
theorem blank_starts_late : ∃ hs, LateWorld.Run World.blank [] hs ⟨World.blank.started, none⟩ := by
  have fresh : LateWorld.Run World.blank [] [] ⟨World.blank, none⟩ := .nil
  obtain ⟨_, opened⟩ := fresh.reachesEngine (i := 0) .start rfl rfl rfl rfl rfl rfl rfl rfl
  have started := opened.on (.answer (.arrive (i := 0) rfl (.answer rfl _)) rfl)
  exact ⟨_, started⟩

/-- An update is called off while none is pending, and then computed again and committed. -/
theorem recomputed_update_run : ∃ lost hs w, LateWorld.Run World.blank lost hs w ∧
    (lost.length = 1 ∧ ∀ x ∈ lost, Harmless x.1 x.2) ∧
    ∃ hs' w' c session, w.Step [] hs' w' ∧ .replied 3 c ∈ hs' ∧ c.request = .commit ∧
      c.reply = .done ∧ c.after = .active session ∧ session.committed.version = 2 := by
  obtain ⟨hs, started⟩ := blank_starts_late
  have edited := started.on (.edit (.upsert ⟨.ofText "main.src", "app", "one", false⟩))
  obtain ⟨_, computed⟩ := edited.reachesEngine (i := 1) .getUpdates rfl rfl rfl rfl rfl rfl rfl rfl
  have fired := computed.goOn (.fire 1) rfl rfl
  have lost := (fired.snoc (.lose (.giveUp (i := 1) rfl rfl rfl) rfl (.inl rfl))).quiet rfl
  obtain ⟨_, computed⟩ := lost.reachesEngine (i := 2) .getUpdates rfl rfl rfl rfl rfl rfl rfl rfl
  have pending := computed.on (.answer (.arrive (i := 2) rfl (.answer rfl _)) rfl)
  obtain ⟨_, begun⟩ := pending.takesTurn .commit rfl rfl rfl rfl
  have promoted := begun.on (.work (i := 3) rfl rfl rfl rfl)
  refine ⟨_, _, _, promoted, ⟨rfl, ?_⟩, _, _, _, _,
    .answer (.arrive (i := 3) rfl (.answer rfl _)) rfl, .tail _ (.head _), rfl, rfl, rfl, rfl⟩
  intro x hx
  cases List.mem_singleton.mp hx
  rintro - _ _ ⟨⟩ ⟨⟩

/-- The engine and its coordinator stay together, however late the engine answers, if no answer
is lost that opened a session or was a ready update to another version than the pending one. -/
theorem late_answers_keep_agreement {lost' : List (SessionState × Answered)}
    {hs' : List Happening} (ho : origin.IsFresh) (h : LateWorld.Run origin lost hs w)
    (hw : w.Step lost' hs' w') (hl : ∀ x ∈ lost ++ lost', Harmless x.1 x.2) :
    w'.engine.sessions.length ≤ 1 ∧
    ∀ i c session, .replied i c ∈ hs' → c.request = .commit → c.reply = .done →
      c.after = .active session → ∃ e, w'.engine.sessions = [e] ∧ e.id = session.engine ∧
        e.baseline = session.committed.version := by
  have hrun := sustains_run ho h fun x hx => hl x (List.mem_append_left _ hx)
  obtain ⟨hsustains, hpromotes⟩ := sustains_step (h.system.orderly ho.system)
    (h.system.planned ho.system) (h.provided ho.provided) hrun hw
    fun x hx => hl x (List.mem_append_right _ hx)
  exact ⟨length_of_sustains hsustains, fun i c session hc hr hd hs =>
    hpromotes i c hc hr hd session hs⟩

theorem recomputed_update_is_committed : ∃ lost hs hs' w w' c session,
    LateWorld.Run World.blank lost hs w ∧ w.Step [] hs' w' ∧ lost.length = 1 ∧
      .replied 3 c ∈ hs' ∧ c.request = .commit ∧ c.reply = .done ∧ c.after = .active session ∧
      session.committed.version = 2 ∧ ∃ e, w'.engine.sessions = [e] ∧ e.id = session.engine ∧
        e.baseline = session.committed.version := by
  obtain ⟨lost, hs, w, h, ⟨hlength, hl⟩, hs', w', c, session, hw, hc, hr, hd, hs, hv⟩ :=
    recomputed_update_run
  have agrees := late_answers_keep_agreement World.blank_isFresh h hw (by simpa using hl)
  exact ⟨lost, _, hs', w, w', c, session, h, hw, hlength, hc, hr, hd, hs, hv,
    agrees.2 3 c session hc hr hd hs⟩

/-- A second update, called off after the engine computed it, is committed in place of the first;
and a start, called off after the engine opened a session, leaves that session behind. -/
theorem late_answers_break_agreement :
    (∃ lost hs hs' w w' i c session e, LateWorld.Run World.blank lost hs w ∧ w.Step [] hs' w' ∧
      .replied i c ∈ hs' ∧ c.request = .commit ∧ c.reply = .done ∧ c.after = .active session ∧
      w'.engine.sessions = [e] ∧ e.id = session.engine ∧ session.committed.version = 2 ∧
      e.baseline = 3) ∧
    ∃ lost hs w, LateWorld.Run World.blank lost hs w ∧ w.engine.sessions.length = 2 := by
  constructor
  · obtain ⟨hs, started⟩ := blank_starts_late
    have edited := started.on (.edit (.upsert ⟨.ofText "main.src", "app", "one", false⟩))
    obtain ⟨_, computed⟩ :=
      edited.reachesEngine (i := 1) .getUpdates rfl rfl rfl rfl rfl rfl rfl rfl
    have pending := computed.on (.answer (.arrive (i := 1) rfl (.answer rfl _)) rfl)
    have edited := pending.on (.edit (.upsert ⟨.ofText "other.src", "app", "two", false⟩))
    obtain ⟨_, computed⟩ :=
      edited.reachesEngine (i := 2) .getUpdates rfl rfl rfl rfl rfl rfl rfl rfl
    have fired := computed.goOn (.fire 2) rfl rfl
    have lost := (fired.snoc (.lose (.giveUp (i := 2) rfl rfl rfl) rfl (.inl rfl))).quiet rfl
    obtain ⟨_, begun⟩ := lost.takesTurn .commit rfl rfl rfl rfl
    have promoted := begun.on (.work (i := 3) rfl rfl rfl rfl)
    exact ⟨_, _, _, _, _, 3, _, _, _, promoted, .answer (.arrive (i := 3) rfl (.answer rfl _)) rfl,
      .tail _ (.head _), rfl, rfl, rfl, rfl, rfl, rfl, rfl⟩
  · have fresh : LateWorld.Run World.blank [] [] ⟨World.blank, none⟩ := .nil
    obtain ⟨_, opened⟩ := fresh.reachesEngine (i := 0) .start rfl rfl rfl rfl rfl rfl rfl rfl
    have fired := opened.goOn (.fire 0) rfl rfl
    have lost := (fired.snoc (.lose (.giveUp (i := 0) rfl rfl rfl) rfl (.inl rfl))).quiet rfl
    obtain ⟨_, opened⟩ := lost.reachesEngine (i := 1) .start rfl rfl rfl rfl rfl rfl rfl rfl
    exact ⟨_, _, _, opened, rfl⟩

end LiveEdit.Kernel
