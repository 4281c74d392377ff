import LiveEdit.Proofs.Session.Course

/-! A system beside its image: the tasks that had their turn, made one after the other. -/
namespace LiveEdit

namespace Gate

variable {g : Gate} {i j : Nat}

theorem mem_queue_leave (h : j ∈ (g.leave i).queue) : j ∈ g.queue := by
  rw [leave] at h
  split at h
  · exact List.mem_of_mem_tail h
  · exact List.mem_of_mem_erase h

theorem holder_leave_of_ne (h : g.holder ≠ some i) : (g.leave i).holder = g.holder := by
  simp [leave, h]

theorem holder_leave (h : (g.leave i).holder = some j) : g.holder = some j ∨ j ∈ g.queue := by
  rw [leave] at h
  split at h
  · exact .inr (List.mem_of_mem_head? h)
  · exact .inl h

theorem mem_queue_join (h : j ∈ (g.join i).queue) : j ∈ g.queue ∨ j = i := by
  rw [join] at h
  split at h
  · exact .inl h
  · split at h
    · exact .inl h
    · simpa using h

theorem holder_join (h : (g.join i).holder = some j) : g.holder = some j ∨ j = i := by
  rw [join] at h
  split at h
  · exact .inl h
  · split at h
    · exact .inr (Option.some.inj h).symm
    · exact .inl h

theorem holder_join_of_some (h : g.holder = some j) : (g.join i).holder = some j := by
  rw [join]
  split
  · exact h
  · simp [h]

end Gate

namespace System

/-- A run in which no request is made before all earlier ones are over. -/
inductive SerialRun (origin : System) : List Happening → System → Prop
  | nil : SerialRun origin [] origin
  | snoc {hs : List Happening} {sys sys' : System} {m : Move} (h : SerialRun origin hs sys)
      (hm : sys.Step m sys')
      (hq : ∀ r fired, m = .issue r fired →
        r.takesGate = true ∧ ∀ t ∈ sys.tasks, t.position.IsOver) :
    SerialRun origin (hs ++ m.happenings sys sys') sys'

variable {origin sys sys' ser : System} {i j k : Nat} {t u : Task} {m : Move} {p : Position}
  {hs hs' : List Happening} {turns : List Nat}

theorem SerialRun.run (h : origin.SerialRun hs sys) : origin.Run hs sys := by
  induction h with
  | nil => exact .nil
  | snoc _ hm _ ih => exact ih.snoc hm

/-- A system with the tasks that had their turn, in the order of their turns, and no others. -/
structure Mirrors (sys : System) (turns : List Nat) (ser : System) : Prop where
  settings : ser.settings = sys.settings
  state : ser.state = sys.state
  history : ser.history = ownEffects sys.history
  nodup : turns.Nodup
  queue : ∀ i ∈ sys.gate.queue, i ∉ turns
  tasks : ser.tasks.map some = turns.map fun i => sys.tasks[i]?
  gate : (∃ earlier i, turns = earlier ++ [i] ∧ sys.gate.holder = some i ∧
      ser.gate = { holder := some earlier.length }) ∨
    ((∀ i ∈ turns, sys.gate.holder ≠ some i) ∧ ser.gate = {})

theorem mirrors_fresh (h : origin.IsFresh) : origin.Mirrors [] origin where
  settings := rfl
  state := rfl
  history := by simp [h.history, ownEffects]
  nodup := .nil
  queue := by simp [h.gate]
  tasks := by simp [h.tasks]
  gate := .inr ⟨by simp, h.gate⟩

theorem Mirrors.task?_eq (h : sys.Mirrors turns ser) (hk : turns[k]? = some i) :
    ser.task? k = sys.task? i := by
  have heq := congrArg (·[k]?) h.tasks
  simp only [List.getElem?_map, hk, Option.map_some] at heq
  obtain ⟨t, ht, hi⟩ := Option.map_eq_some_iff.mp heq
  exact ht.trans hi

theorem Mirrors.length_eq (h : sys.Mirrors turns ser) : ser.tasks.length = turns.length := by
  simpa using congrArg List.length h.tasks

theorem Mirrors.index_eq {n : Nat} (h : sys.Mirrors turns ser) (hk : turns[k]? = some i)
    (hn : turns[n]? = some i) : k = n :=
  (List.getElem?_inj (List.getElem?_eq_some_iff.mp hk).1 h.nodup).mp (hk.trans hn.symm)

/-- Whatever changes one task changes its image. -/
theorem Mirrors.tasks_modify (h : sys.Mirrors turns ser) (hk : turns[k]? = some i)
    (g : Task → Task) :
    (ser.tasks.modify k g).map some = turns.map fun j => (sys.tasks.modify i g)[j]? := by
  refine List.ext_getElem? fun n => ?_
  have heq := congrArg (·[n]?) h.tasks
  simp only [List.getElem?_map, List.getElem?_modify] at heq ⊢
  by_cases hn : k = n
  · subst hn
    rw [hk] at heq ⊢
    obtain ⟨t, ht, hi⟩ := Option.map_eq_some_iff.mp heq
    simp [ht, ← hi]
  · cases hj : turns[n]? with
    | none => simpa [hn, hj] using heq
    | some j =>
      have hij : i ≠ j := by
        rintro rfl
        exact hn (h.index_eq hk hj)
      simpa [hn, hj, hij] using heq

theorem Mirrors.tasks_modify_other (h : sys.Mirrors turns ser) (hi : i ∉ turns)
    (g : Task → Task) :
    ser.tasks.map some = turns.map fun j => (sys.tasks.modify i g)[j]? := by
  rw [h.tasks]
  refine List.map_congr_left fun j hj => ?_
  have hij : i ≠ j := by
    rintro rfl
    exact hi hj
  simp [hij]

theorem Mirrors.modify (h : sys.Mirrors turns ser) (hk : turns[k]? = some i)
    (g : Task → Task) :
    Mirrors { sys with tasks := sys.tasks.modify i g } turns
      { ser with tasks := ser.tasks.modify k g } :=
  ⟨h.settings, h.state, h.history, h.nodup, h.queue, h.tasks_modify hk g, h.gate⟩

theorem Mirrors.modify_other (h : sys.Mirrors turns ser) (hi : i ∉ turns) (g : Task → Task) :
    Mirrors { sys with tasks := sys.tasks.modify i g } turns ser :=
  ⟨h.settings, h.state, h.history, h.nodup, h.queue, h.tasks_modify_other hi g, h.gate⟩

/-- The gate passes from who leaves to one that had no turn yet. -/
theorem Mirrors.leave (h : sys.Mirrors turns ser) (hk : turns[k]? = some i) :
    (sys.leave i p).Mirrors turns (ser.leave k p) := by
  refine ⟨h.settings, h.state, h.history, h.nodup,
    fun j hj => h.queue j (Gate.mem_queue_leave hj), h.tasks_modify hk _, ?_⟩
  rcases h.gate with ⟨earlier, l, rfl, hl, hg⟩ | ⟨hn, hg⟩
  · by_cases hil : i = l
    · subst hil
      right
      have hkl : k = earlier.length := h.index_eq hk (by simp)
      refine ⟨fun j hj hh => ?_, ?_⟩
      · have hq : j ∈ sys.gate.queue := by
          simp only [System.leave, setPosition, Gate.leave, hl, if_true] at hh
          exact List.mem_of_mem_head? hh
        exact h.queue j hq hj
      · simp [System.leave, setPosition, hg, Gate.leave, hkl]
    · left
      refine ⟨earlier, l, rfl, ?_, ?_⟩
      · simp [System.leave, setPosition, Gate.leave, hl, Ne.symm hil]
      · have hkl : earlier.length ≠ k := by
          rintro rfl
          simp at hk
          exact hil hk.symm
        simp [System.leave, setPosition, hg, Gate.leave, hkl]
  · right
    refine ⟨fun j hj hh => ?_, ?_⟩
    · rcases Gate.holder_leave hh with hh | hq
      · exact hn j hj hh
      · exact h.queue j hq hj
    · simp [System.leave, setPosition, hg, Gate.leave]

theorem Mirrors.leave_other (h : sys.Mirrors turns ser) (hi : i ∉ turns) :
    (sys.leave i p).Mirrors turns ser := by
  refine ⟨h.settings, h.state, h.history, h.nodup,
    fun j hj => h.queue j (Gate.mem_queue_leave hj), h.tasks_modify_other hi _, ?_⟩
  rcases h.gate with ⟨earlier, l, rfl, hl, hg⟩ | ⟨hn, hg⟩
  · have hne : sys.gate.holder ≠ some i := by
      rw [hl]
      rintro ⟨⟩
      simp at hi
    exact .inl ⟨earlier, l, rfl, (Gate.holder_leave_of_ne hne).trans hl, hg⟩
  · refine .inr ⟨fun j hj hh => ?_, hg⟩
    rcases Gate.holder_leave hh with hh | hq
    · exact hn j hj hh
    · exact h.queue j hq hj

theorem Mirrors.conclude {c : Conclusion} (h : sys.Mirrors turns ser) (hk : turns[k]? = some i)
    (hc : ownEffects c.effects = c.effects) :
    (sys.conclude i c).Mirrors turns (ser.conclude k c) := by
  have hl : (sys.leave i (.ended c.reply)).Mirrors turns (ser.leave k (.ended c.reply)) :=
    h.leave hk
  refine ⟨h.settings, rfl, ?_, h.nodup, hl.queue, hl.tasks, hl.gate⟩
  calc ser.history ++ c.effects
      = ownEffects sys.history ++ ownEffects c.effects := by rw [h.history, hc]
    _ = ownEffects (sys.history ++ c.effects) := (List.filter_append ..).symm

theorem Mirrors.conclude_other {c : Conclusion} (h : sys.Mirrors turns ser) (hi : i ∉ turns)
    (hs : c.state = sys.state) (hc : OnlyReports c.effects) :
    (sys.conclude i c).Mirrors turns ser := by
  have hl : (sys.leave i (.ended c.reply)).Mirrors turns ser := h.leave_other hi
  refine ⟨h.settings, h.state.trans hs.symm, ?_, h.nodup, hl.queue, hl.tasks, hl.gate⟩
  have hnil : ownEffects c.effects = [] :=
    List.filter_eq_nil_iff.mpr fun e he => by simp [hc e he]
  calc ser.history
      = ownEffects sys.history ++ ownEffects c.effects := by rw [h.history, hnil, List.append_nil]
    _ = ownEffects (sys.history ++ c.effects) := (List.filter_append ..).symm

/-- A task's arrival at a plan is its image's arrival at the same plan. -/
theorem Mirrors.arrive {p : Plan} (h : sys.Mirrors turns ser) (hk : turns[k]? = some i)
    (hp : ∀ f, p = .conclude f → ownEffects (f sys.state).effects = (f sys.state).effects) :
    (sys.arrive i p).Mirrors turns (ser.arrive k p) := by
  cases p with
  | conclude f =>
    have hc := h.conclude hk (hp f rfl)
    have heq : ser.arrive k (.conclude f) = ser.conclude k (f sys.state) := by
      rw [← h.state]
      rfl
    rw [heq]
    exact hc
  | await d call resume =>
    have hf : ser.hasFired k = sys.hasFired i := by simp only [hasFired, h.task?_eq hk]
    rw [System.arrive, System.arrive, hf]
    split
    · exact h.leave hk
    · exact h.modify hk _

/-- Without the gate a task's arrival shows nowhere. -/
theorem Mirrors.arrive_other {p : Plan} (h : sys.Mirrors turns ser) (hi : i ∉ turns)
    (hp : ∀ f, p = .conclude f →
      (f sys.state).state = sys.state ∧ OnlyReports (f sys.state).effects) :
    (sys.arrive i p).Mirrors turns ser := by
  cases p with
  | conclude f => exact h.conclude_other hi (hp f rfl).1 (hp f rfl).2
  | await d call resume =>
    rw [System.arrive]
    split
    · exact h.leave_other hi
    · exact h.modify_other hi _

theorem Mirrors.join (h : sys.Mirrors turns ser) (hi : i ∉ turns) :
    Mirrors { sys with gate := sys.gate.join i } turns ser := by
  refine ⟨h.settings, h.state, h.history, h.nodup, fun j hj => ?_, h.tasks, ?_⟩
  · rcases Gate.mem_queue_join hj with hj | rfl
    · exact h.queue j hj
    · exact hi
  · rcases h.gate with ⟨earlier, l, hl, hh, hg⟩ | ⟨hn, hg⟩
    · exact .inl ⟨earlier, l, hl, Gate.holder_join_of_some hh, hg⟩
    · refine .inr ⟨fun j hj hh => ?_, hg⟩
      rcases Gate.holder_join hh with hh | rfl
      · exact hn j hj hh
      · exact hi hj

theorem Mirrors.issue {r : Request} {fired : Bool} (h : sys.Mirrors turns ser)
    (ht : ∀ i ∈ turns, i < sys.tasks.length) : (sys.issue r fired).Mirrors turns ser := by
  refine ⟨h.settings, h.state, h.history, h.nodup, h.queue, ?_, h.gate⟩
  rw [h.tasks]
  exact List.map_congr_left fun i hi => (List.getElem?_append_left (ht i hi)).symm

theorem approach_eq (ht : sys.task? i = some t) (hf : t.fired = false) :
    sys.approach i = { sys with gate := sys.gate.join i } := by
  rw [approach, hasFired_eq ht, hf]
  simp

/-- Before a task has its turn, its image is made, and comes to the gate, which is free. -/
theorem Mirrors.admit (h : sys.Mirrors turns ser) (hr : origin.SerialRun hs' ser)
    (ht : sys.task? i = some t) (hw : t.position = .waiting)
    (hg : t.request.takesGate = true) (hh : sys.gate.holder = some i) (hi : i ∉ turns)
    (hq : i ∉ sys.gate.queue)
    (ho : ∀ j ∈ turns, ∀ u, sys.task? j = some u → u.position.IsOver) :
    ∃ ser', origin.SerialRun hs' ser' ∧ sys.Mirrors (turns ++ [i]) ser' := by
  obtain ⟨r, fired, position⟩ := t
  subst hw
  have hfree : ser.gate = {} := by
    rcases h.gate with ⟨earlier, l, rfl, hl, -⟩ | ⟨-, hg⟩
    · cases hh.symm.trans hl
      simp at hi
    · exact hg
  have hover : ∀ u ∈ ser.tasks, u.position.IsOver := by
    intro u hu
    have hm : some u ∈ turns.map fun j => sys.tasks[j]? :=
      h.tasks ▸ List.mem_map.mpr ⟨u, hu, rfl⟩
    obtain ⟨j, hj, hju⟩ := List.mem_map.mp hm
    exact ho j hj u hju
  have h1 := hr.snoc (.issue r false) (by rintro _ _ ⟨⟩; exact ⟨hg, hover⟩)
  have ht1 : (ser.issue r false).task? ser.tasks.length = some ⟨r, false, .waiting⟩ := by
    rw [task?_issue, if_pos rfl]
  have h2 := h1.snoc (.approach ht1 rfl hg) (by simp)
  rw [approach_eq ht1 rfl, happenings_join ht1 rfl] at h2
  simp only [Move.happenings, List.append_nil] at h2
  have hmirror (tasks : List Task) (htasks : tasks = ser.tasks ++ [⟨r, fired, .waiting⟩]) :
      sys.Mirrors (turns ++ [i]) { ser.issue r false with
        gate := (ser.issue r false).gate.join ser.tasks.length, tasks } := by
    refine ⟨h.settings, h.state, h.history, ?_, ?_, ?_, .inl ⟨turns, i, rfl, hh, ?_⟩⟩
    · exact List.nodup_append.mpr ⟨h.nodup, by simp, by
        rintro a ha b hb rfl
        exact hi (List.mem_singleton.mp hb ▸ ha)⟩
    · intro j hj hm
      rcases List.mem_append.mp hm with hm | hm
      · exact h.queue j hj hm
      · exact hq (List.mem_singleton.mp hm ▸ hj)
    · have hti : sys.tasks[i]? = some ⟨r, fired, .waiting⟩ := ht
      simp [htasks, h.tasks, hti]
    · simp [System.issue, hfree, Gate.join, h.length_eq]
  cases fired with
  | false => exact ⟨_, h2, hmirror _ rfl⟩
  | true =>
    have h3 := h2.snoc (.fire ser.tasks.length) (by simp)
    simp only [Move.happenings, List.append_nil] at h3
    refine ⟨_, h3, hmirror _ ?_⟩
    simp [System.issue, List.modify_eq_take_cons_drop]

end System

end LiveEdit
