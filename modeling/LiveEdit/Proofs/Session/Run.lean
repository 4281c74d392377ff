import LiveEdit.Session.System

/-! Runs of a system. The steps of its tasks come in any order, and calls answer what they like. -/
namespace LiveEdit

/-- A call and its answer. -/
structure Answered where
  call : Call
  result : Except Fault call.Answer

inductive Move where
  | issue (request : Request) (fired : Bool)
  | fire (i : Nat)
  | drop (i : Nat)
  | approach (i : Nat)
  | takeTurn (i : Nat)
  | answer (i : Nat) (answered : Answered)
  | giveUp (i : Nat)

/-- The task that makes a move, or to which it happens. -/
def Move.task? : Move → Option Nat
  | .issue _ _ => none
  | .fire i | .drop i | .approach i | .takeTurn i | .answer i _ | .giveUp i => some i

/-- A move that ends no call. -/
def Move.callsGoOn : Move → Bool
  | .answer _ _ | .giveUp _ | .drop _ => false
  | _ => true

/-- The end of a request: its reply, the session around it, and what the world was told then. -/
structure Completion where
  request : Request
  reply : Reply
  before : SessionState
  after : SessionState
  effects : List Effect

/-- What a log of a run records. -/
inductive Happening where
  /-- A task has its turn and finds a session. -/
  | began (i : Nat) (request : Request) (found : SessionState)
  | called (i : Nat) (call : Call)
  | answered (i : Nat) (answered : Answered)
  | replied (i : Nat) (completion : Completion)

/-- Nothing can happen to the task any more. -/
def Position.IsOver : Position → Prop
  | .waiting | .inCall .. => False
  | .ended _ | .dropped => True

namespace System

/-- Before the first request. -/
structure IsFresh (sys : System) : Prop where
  tasks : sys.tasks = []
  gate : sys.gate = {}
  history : sys.history = []

/-- The move brings the task to the plan: by its turn, or by the answer to a call. -/
inductive Comes (sys : System) (i : Nat) (t : Task) : Move → Plan → Prop
  | turn (hw : t.position = .waiting)
      (hg : t.request.takesGate = true → sys.gate.holder = some i) :
    Comes sys i t (.takeTurn i) (sys.planOf t.request)
  | answer {d : Discipline} {call : Call} {resume : Except Fault call.Answer → Plan}
      (hp : t.position = .inCall d call resume) (result : Except Fault call.Answer) :
    Comes sys i t (.answer i ⟨call, result⟩) (resume result)

inductive Step (sys : System) : Move → System → Prop
  | issue (r : Request) (fired : Bool) : Step sys (.issue r fired) (sys.issue r fired)
  | fire (i : Nat) : Step sys (.fire i) (sys.fire i)
  | drop {i : Nat} {t : Task} (ht : sys.task? i = some t) : Step sys (.drop i) (sys.drop i)
  | approach {i : Nat} {t : Task} (ht : sys.task? i = some t) (hw : t.position = .waiting)
      (hg : t.request.takesGate = true) : Step sys (.approach i) (sys.approach i)
  | arrive {i : Nat} {t : Task} {m : Move} {p : Plan} (ht : sys.task? i = some t)
      (hc : sys.Comes i t m p) : Step sys m (sys.arrive i p)
  | giveUp {i : Nat} {t : Task} {call : Call} {resume : Except Fault call.Answer → Plan}
      (ht : sys.task? i = some t) (hp : t.position = .inCall .interruptible call resume)
      (hf : t.fired = true) : Step sys (.giveUp i) (sys.giveUp i)

/-- Where a task got to by a move, as the log has it. -/
def arrival (before after : System) (i : Nat) : List Happening :=
  match after.task? i with
  | some ⟨_, _, .inCall _ call _⟩ => [.called i call]
  | some ⟨r, _, .ended reply⟩ =>
    [.replied i
      ⟨r, reply, before.state, after.state, after.history.drop before.history.length⟩]
  | _ => []

end System

/-- What a log has of a move before it has an effect. -/
def Move.opening (m : Move) (sys : System) : List Happening :=
  match m with
  | .takeTurn i => (sys.task? i).toList.map fun t => .began i t.request sys.state
  | .answer i a => [.answered i a]
  | _ => []

/-- What a move adds to the log. -/
def Move.happenings (m : Move) (before after : System) : List Happening :=
  match m with
  | .issue _ _ | .fire _ | .drop _ => []
  | .approach i | .takeTurn i | .answer i _ | .giveUp i =>
    m.opening before ++ before.arrival after i

namespace System

/-- A run from an origin, with its log. -/
inductive Run (origin : System) : List Happening → System → Prop
  | nil : Run origin [] origin
  | snoc {hs : List Happening} {sys sys' : System} {m : Move} (h : Run origin hs sys)
      (hm : sys.Step m sys') : Run origin (hs ++ m.happenings sys sys') sys'

variable {sys sys' : System} {i j : Nat} {t : Task} {p : Position} {m : Move}

theorem task?_setPosition : (sys.setPosition i p).task? j =
    if i = j then (sys.task? j).map fun t => { t with position := p } else sys.task? j := by
  simp only [setPosition, task?, List.getElem?_modify]
  split <;> simp

@[simp] theorem task?_leave : (sys.leave i p).task? j = (sys.setPosition i p).task? j := rfl

theorem task?_fire : (sys.fire i).task? j =
    if i = j then (sys.task? j).map fun t => { t with fired := true } else sys.task? j := by
  simp only [fire, task?, List.getElem?_modify]
  split <;> simp

theorem task?_issue {r : Request} {fired : Bool} : (sys.issue r fired).task? j =
    if j = sys.tasks.length then some ⟨r, fired, .waiting⟩ else sys.task? j := by
  simp only [issue, task?]
  split
  next hj => simp [hj]
  next hj =>
    by_cases h : j < sys.tasks.length
    · rw [List.getElem?_append_left h]
    · rw [List.getElem?_eq_none (by simp; omega), List.getElem?_eq_none (by omega)]

theorem task?_setPosition_self (ht : sys.task? i = some t) :
    (sys.setPosition i p).task? i = some { t with position := p } := by
  simp [task?_setPosition, ht]

theorem task?_setPosition_of_ne (hij : i ≠ j) :
    (sys.setPosition i p).task? j = sys.task? j := by
  simp [task?_setPosition, hij]

theorem task?_lt (ht : sys.task? i = some t) : i < sys.tasks.length :=
  (List.getElem?_eq_some_iff.mp ht).1

theorem reply?_eq_some_iff {r : Reply} (ht : sys.task? i = some t) :
    sys.reply? i = some r ↔ t.position = .ended r := by
  obtain ⟨request, fired, position⟩ := t
  cases position <;> simp [reply?, ht]

theorem reply?_leave {r : Reply} (ht : sys.task? i = some t) :
    (sys.leave i (.ended r)).reply? i = some r := by
  have hend : (sys.leave i (.ended r)).task? i = some { t with position := .ended r } :=
    task?_setPosition_self ht
  exact (reply?_eq_some_iff hend).mpr rfl

theorem hasFired_eq (ht : sys.task? i = some t) : sys.hasFired i = t.fired := by
  simp [hasFired, ht]

/-- A new request comes to the gate and takes its turn. -/
def turn (sys : System) (r : Request) : System :=
  let admitted := (sys.issue r false).approach sys.tasks.length
  admitted.arrive sys.tasks.length (admitted.planOf r)

/-- What such moves keep is kept when a request takes its turn at a free gate. -/
theorem turn_of_moves {P : System → Prop} {r : Request} (h : P sys)
    (hg : r.takesGate = true) (hgate : sys.gate = {}) (hquiet : (sys.turn r).history = sys.history)
    (hmove : ∀ {u v : System} {m : Move}, P u → u.Step m v → m.callsGoOn = true →
      v.history = sys.history → P v) : P (sys.turn r) := by
  have hnew : (sys.issue r false).task? sys.tasks.length = some ⟨r, false, .waiting⟩ := by
    rw [task?_issue, if_pos rfl]
  have hadmitted : (sys.issue r false).approach sys.tasks.length =
      { sys.issue r false with gate := Gate.join {} sys.tasks.length } := by
    rw [approach, hasFired_eq hnew, ← hgate]
    rfl
  have hissue : P (sys.issue r false) := hmove h (.issue r false) rfl rfl
  have happroach := hmove hissue (.approach hnew rfl hg) rfl (by rw [hadmitted]; rfl)
  have hwaits : ((sys.issue r false).approach sys.tasks.length).task? sys.tasks.length =
      some ⟨r, false, .waiting⟩ := by
    rw [hadmitted]
    exact hnew
  refine hmove happroach (.arrive hwaits (.turn rfl fun _ => ?_)) rfl hquiet
  rw [hadmitted]
  simp [Gate.join]

theorem Run.takesTurn {origin : System} {hs : List Happening} (h : origin.Run hs sys) (r : Request)
    (hg : r.takesGate = true) (hgate : sys.gate = {})
    (hquiet : (sys.turn r).history = sys.history) :
    ∃ hs', origin.Run (hs ++ hs') (sys.turn r) := by
  refine turn_of_moves (P := fun sys => ∃ hs', origin.Run (hs ++ hs') sys)
    ⟨[], (List.append_nil hs).symm ▸ h⟩ hg hgate hquiet ?_
  rintro u v m ⟨hs', hu⟩ hm - -
  exact ⟨_, List.append_assoc .. ▸ hu.snoc hm⟩

/-- A system in which one request was made, which started a session. -/
def started (sys : System) (session : ActiveSession) : System :=
  { sys with
    state := .active session
    tasks := [⟨.start, false, .ended .done⟩]
    history :=
      [Plan.coordinatorLog .startSession .info "Hot reload session started"
          [("version", versionLabel session.committed.version),
            ("session_id", session.engine.uuid.text)],
        .count .sessionsStarted, .audit (.sessionStarted session.committed.version),
        .publish (.started session.committed.version)] }

/-- The first request can start a session, over whatever snapshot it is given. -/
theorem IsFresh.starts (h : sys.IsFresh) (hs : sys.state = .noSession) (baseline : Snapshot)
    (engine : EngineSessionId) :
    ∃ hs, sys.Run hs (sys.started { engine, committed := baseline }) := by
  have fresh : sys.Run [] sys := .nil
  obtain ⟨settings, state, gate, tasks, history⟩ := sys
  obtain ⟨rfl, rfl, rfl⟩ := h
  cases hs
  obtain ⟨hs, begun⟩ := fresh.takesTurn .start rfl rfl rfl
  have provided := begun.snoc (.arrive (i := 0) rfl (.answer rfl (.ok baseline)))
  have opened := provided.snoc (.arrive (i := 0) rfl (.answer rfl (.ok (engine : EngineSessionId))))
  exact ⟨_, opened⟩

/-- All that a task's conclusion does. -/
def conclude (sys : System) (i : Nat) (c : Conclusion) : System :=
  { sys.leave i (.ended c.reply) with state := c.state, history := sys.history ++ c.effects }

@[simp] theorem task?_conclude {c : Conclusion} :
    (sys.conclude i c).task? j = (sys.setPosition i (.ended c.reply)).task? j := rfl

/-- A task whose token has fired gives up: before its turn, before a call or in one. -/
inductive GivesUp (sys : System) (i : Nat) (t : Task) : Move → Prop
  | atGate (hw : t.position = .waiting) (hg : t.request.takesGate = true) :
    GivesUp sys i t (.approach i)
  | beforeCall {m : Move} {d : Discipline} {call : Call}
      {resume : Except Fault call.Answer → Plan} (hc : sys.Comes i t m (.await d call resume)) :
    GivesUp sys i t m
  | inCall {call : Call} {resume : Except Fault call.Answer → Plan}
      (hp : t.position = .inCall .interruptible call resume) : GivesUp sys i t (.giveUp i)

/-- What a step does, whatever led to it. -/
inductive Change (sys : System) : Move → System → Prop
  | issues (r : Request) (fired : Bool) : Change sys (.issue r fired) (sys.issue r fired)
  | fires (i : Nat) : Change sys (.fire i) (sys.fire i)
  | stays (i : Nat) : Change sys (.drop i) sys
  | drops {i : Nat} {t : Task} (ht : sys.task? i = some t) (hr : sys.reply? i = none) :
    Change sys (.drop i) (sys.leave i .dropped)
  | joins {i : Nat} {t : Task} (ht : sys.task? i = some t) (hw : t.position = .waiting)
      (hg : t.request.takesGate = true) :
    Change sys (.approach i) { sys with gate := sys.gate.join i }
  | cancels {i : Nat} {t : Task} {m : Move} (ht : sys.task? i = some t) (hf : t.fired = true)
      (hq : sys.GivesUp i t m) : Change sys m (sys.leave i (.ended .cancelled))
  | calls {i : Nat} {t : Task} {m : Move} {d : Discipline} {call : Call}
      {resume : Except Fault call.Answer → Plan} (ht : sys.task? i = some t)
      (hf : t.fired = false) (hc : sys.Comes i t m (.await d call resume)) :
    Change sys m (sys.setPosition i (.inCall d call resume))
  | concludes {i : Nat} {t : Task} {m : Move} {f : SessionState → Conclusion}
      (ht : sys.task? i = some t) (hc : sys.Comes i t m (.conclude f)) :
    Change sys m (sys.conclude i (f sys.state))

theorem step_change (h : sys.Step m sys') : sys.Change m sys' := by
  cases h with
  | issue r fired => exact .issues r fired
  | fire i => exact .fires i
  | drop ht =>
    rw [drop]
    split
    next => exact .stays _
    next hr => exact .drops ht hr
  | approach ht hw hg =>
    rw [approach, hasFired_eq ht]
    split
    next hf => exact .cancels ht hf (.atGate hw hg)
    next => exact .joins ht hw hg
  | @arrive i t m p ht hc =>
    cases p with
    | conclude f => exact .concludes ht hc
    | await d call resume =>
      rw [arrive, hasFired_eq ht]
      split
      next hf => exact .cancels ht hf (.beforeCall hc)
      next hf => exact .calls ht (by simpa using hf) hc
  | @giveUp i t call resume ht hp hf =>
    obtain ⟨r, fired, p⟩ := t
    subst hp hf
    simpa [giveUp, ht] using Change.cancels ht rfl (.inCall rfl)

theorem Comes.task?_eq {p : Plan} (h : sys.Comes i t m p) : m.task? = some i := by
  cases h <;> rfl

theorem Comes.inv {q : Plan} (h : sys.Comes i t m q) :
    (m = .takeTurn i ∧ t.position = .waiting ∧ sys.planOf t.request = q) ∨
    ∃ d call resume result, m = .answer i ⟨call, result⟩ ∧
      t.position = .inCall d call resume ∧ resume result = q := by
  cases h with
  | turn hw => exact .inl ⟨rfl, hw, rfl⟩
  | answer hp result => exact .inr ⟨_, _, _, result, rfl, hp, rfl⟩

theorem Comes.not_over {p : Plan} (h : sys.Comes i t m p) : ¬ t.position.IsOver := by
  cases h <;> simp_all [Position.IsOver]

theorem Comes.happenings {p : Plan} (h : sys.Comes i t m p) :
    m.happenings sys sys' = m.opening sys ++ sys.arrival sys' i := by
  cases h <;> rfl

/-- A move brings one task to one plan. -/
theorem Comes.unique {u : Task} {p q : Plan} (h : sys.Comes i t m p) (h' : sys.Comes j u m q)
    (ht : sys.task? i = some t) (hu : sys.task? j = some u) : i = j ∧ t = u ∧ p = q := by
  cases Option.some.inj (h.task?_eq.symm.trans h'.task?_eq)
  cases ht.symm.trans hu
  refine ⟨rfl, rfl, ?_⟩
  cases h with
  | turn =>
    cases h'
    rfl
  | answer hp =>
    cases h' with
    | answer hp' =>
      rw [hp] at hp'
      cases hp'
      rfl

theorem GivesUp.task?_eq (h : sys.GivesUp i t m) : m.task? = some i := by
  cases h with
  | beforeCall hc => exact hc.task?_eq
  | _ => rfl

theorem GivesUp.not_over (h : sys.GivesUp i t m) : ¬ t.position.IsOver := by
  cases h with
  | beforeCall hc => exact hc.not_over
  | _ => simp_all [Position.IsOver]

/-- A task that gives up replies so, and nothing else. -/
theorem GivesUp.happenings (h : sys.GivesUp i t m) (ht : sys.task? i = some t) :
    m.happenings sys (sys.leave i (.ended .cancelled)) = m.opening sys ++
      [.replied i ⟨t.request, .cancelled, sys.state, sys.state, []⟩] := by
  have ha : m.happenings sys (sys.leave i (.ended .cancelled)) =
      m.opening sys ++ sys.arrival (sys.leave i (.ended .cancelled)) i := by
    cases h with
    | beforeCall hc => exact hc.happenings
    | _ => rfl
  rw [ha, arrival, task?_leave, task?_setPosition_self ht]
  simp [leave, setPosition]

theorem Comes.happenings_call {d : Discipline} {call : Call}
    {resume : Except Fault call.Answer → Plan} (h : sys.Comes i t m (.await d call resume))
    (ht : sys.task? i = some t) :
    m.happenings sys (sys.setPosition i (.inCall d call resume)) =
      m.opening sys ++ [.called i call] := by
  rw [h.happenings, arrival, task?_setPosition_self ht]

theorem arrival_conclude {c : Conclusion} (ht : sys.task? i = some t) :
    sys.arrival (sys.conclude i c) i =
      [.replied i ⟨t.request, c.reply, sys.state, c.state, c.effects⟩] := by
  rw [arrival, task?_conclude, task?_setPosition_self ht]
  simp [conclude]

theorem Comes.happenings_conclude {f : SessionState → Conclusion} {c : Conclusion}
    (h : sys.Comes i t m (.conclude f)) (ht : sys.task? i = some t) :
    m.happenings sys (sys.conclude i c) = m.opening sys ++
      [.replied i ⟨t.request, c.reply, sys.state, c.state, c.effects⟩] := by
  rw [h.happenings, arrival_conclude ht]

theorem happenings_join (ht : sys.task? i = some t) (hw : t.position = .waiting) :
    (Move.approach i).happenings sys { sys with gate := sys.gate.join i } = [] := by
  obtain ⟨r, fired, p⟩ := t
  subst hw
  have : System.task? { sys with gate := sys.gate.join i } i = some ⟨r, fired, .waiting⟩ := ht
  simp [Move.happenings, Move.opening, arrival, this]

/-- What a step leaves in the log: nothing, or what one task came to. -/
inductive Entry (sys : System) (m : Move) : System → Prop
  | silent {sys' : System} (hl : m.happenings sys sys' = []) (hs : sys'.state = sys.state)
      (hh : sys'.history = sys.history) : Entry sys m sys'
  | cancels {i : Nat} {t : Task} (ht : sys.task? i = some t) (hf : t.fired = true)
      (hq : sys.GivesUp i t m) : Entry sys m (sys.leave i (.ended .cancelled))
  | calls {i : Nat} {t : Task} {d : Discipline} {call : Call}
      {resume : Except Fault call.Answer → Plan} (ht : sys.task? i = some t)
      (hc : sys.Comes i t m (.await d call resume)) :
    Entry sys m (sys.setPosition i (.inCall d call resume))
  | concludes {i : Nat} {t : Task} {f : SessionState → Conclusion} (ht : sys.task? i = some t)
      (hc : sys.Comes i t m (.conclude f)) : Entry sys m (sys.conclude i (f sys.state))

theorem step_entry (hm : sys.Step m sys') : sys.Entry m sys' := by
  cases step_change hm with
  | issues => exact .silent rfl rfl rfl
  | fires => exact .silent rfl rfl rfl
  | stays => exact .silent rfl rfl rfl
  | drops => exact .silent rfl rfl rfl
  | joins ht hw => exact .silent (happenings_join ht hw) rfl rfl
  | cancels ht hf hq => exact .cancels ht hf hq
  | calls ht _ hc => exact .calls ht hc
  | concludes ht hc => exact .concludes ht hc

/-- Whoever is in a call was in it before the step, or just came to it. -/
theorem inCall_step {d : Discipline} {call : Call} {resume : Except Fault call.Answer → Plan}
    (hm : sys.Step m sys') (ht : sys'.task? j = some t) (hp : t.position = .inCall d call resume) :
    ∃ u, sys.task? j = some u ∧ u.request = t.request ∧
      (u.position = t.position ∨ sys.Comes j u m (.await d call resume)) := by
  have moved {i : Nat} {q : Position} (hq : q.IsOver)
      (ht : (sys.setPosition i q).task? j = some t) :
      ∃ u, sys.task? j = some u ∧ u.request = t.request ∧
        (u.position = t.position ∨ sys.Comes j u m (.await d call resume)) := by
    rw [task?_setPosition] at ht
    split at ht
    · obtain ⟨u, -, rfl⟩ := Option.map_eq_some_iff.mp ht
      simp only at hp
      simp [hp, Position.IsOver] at hq
    · exact ⟨t, ht, rfl, .inl rfl⟩
  cases step_change hm with
  | issues r fired =>
    rw [task?_issue] at ht
    split at ht
    · cases ht
      cases hp
    · exact ⟨t, ht, rfl, .inl rfl⟩
  | fires i =>
    rw [task?_fire] at ht
    split at ht
    · obtain ⟨u, hu, rfl⟩ := Option.map_eq_some_iff.mp ht
      exact ⟨u, hu, rfl, .inl rfl⟩
    · exact ⟨t, ht, rfl, .inl rfl⟩
  | stays => exact ⟨t, ht, rfl, .inl rfl⟩
  | drops => exact moved (q := .dropped) trivial ht
  | joins => exact ⟨t, ht, rfl, .inl rfl⟩
  | cancels => exact moved (q := .ended _) trivial ht
  | @calls i u _ _ _ _ hu _ hc =>
    by_cases hij : i = j
    · subst hij
      rw [task?_setPosition_self hu] at ht
      cases ht
      cases hp
      exact ⟨u, hu, rfl, .inr hc⟩
    · exact ⟨t, task?_setPosition_of_ne hij ▸ ht, rfl, .inl rfl⟩
  | concludes => exact moved (q := .ended _) trivial ht

/-- Whoever is in a call stays in it, unless it is answered or left. -/
theorem stays_inCall {d : Discipline} {call : Call} {resume : Except Fault call.Answer → Plan}
    (hm : sys.Step m sys') (ht : sys.task? i = some t) (hp : t.position = .inCall d call resume)
    (ha : ∀ a, m ≠ .answer i a) (hl : m ≠ .giveUp i ∧ m ≠ .drop i) :
    ∃ u, sys'.task? i = some u ∧ u.request = t.request ∧ u.position = t.position := by
  have other {j : Nat} {q : Position} (hji : j ≠ i) :
      ∃ u, (sys.setPosition j q).task? i = some u ∧ u.request = t.request ∧
        u.position = t.position :=
    ⟨t, (task?_setPosition_of_ne hji).trans ht, rfl, rfl⟩
  have comes {j : Nat} {u : Task} {q : Plan} (hu : sys.task? j = some u)
      (hc : sys.Comes j u m q) : j ≠ i := by
    rintro rfl
    cases ht.symm.trans hu
    cases hc with
    | turn hw => cases hw.symm.trans hp
    | answer hq result => exact ha _ rfl
  cases step_change hm with
  | issues r fired =>
    exact ⟨t, by rw [task?_issue, if_neg (Nat.ne_of_lt (task?_lt ht)), ht], rfl, rfl⟩
  | fires j => by_cases hji : j = i <;> simp [task?_fire, hji, ht]
  | stays => exact ⟨t, ht, rfl, rfl⟩
  | drops =>
    refine other ?_
    rintro rfl
    exact hl.2 rfl
  | joins => exact ⟨t, ht, rfl, rfl⟩
  | cancels hu _ hq =>
    refine other ?_
    rintro rfl
    cases ht.symm.trans hu
    cases hq with
    | atGate hw => cases hw.symm.trans hp
    | beforeCall hc => exact comes ht hc rfl
    | inCall => exact hl.1 rfl
  | calls hu _ hc => exact other (comes hu hc)
  | concludes hu hc => exact other (comes hu hc)

theorem replied_not_mem_opening {c : Completion} : .replied i c ∉ m.opening sys := by
  cases m <;> simp [Move.opening]

/-- Where a reply in the log comes from. -/
inductive Replies (sys : System) (i : Nat) (t : Task) (m : Move) : Completion → Prop
  | cancels (hf : t.fired = true) (hq : sys.GivesUp i t m) :
    Replies sys i t m ⟨t.request, .cancelled, sys.state, sys.state, []⟩
  | concludes {f : SessionState → Conclusion} (hc : sys.Comes i t m (.conclude f)) :
    Replies sys i t m
      ⟨t.request, (f sys.state).reply, sys.state, (f sys.state).state, (f sys.state).effects⟩

theorem replies_of_mem {c : Completion} (hm : sys.Step m sys')
    (h : .replied i c ∈ m.happenings sys sys') :
    ∃ t, sys.task? i = some t ∧ sys.Replies i t m c := by
  cases step_entry hm with
  | silent hl => simp [hl] at h
  | cancels ht hf hq =>
    rw [hq.happenings ht, List.mem_append, List.mem_singleton] at h
    rcases h with h | h
    · exact absurd h replied_not_mem_opening
    · cases h
      exact ⟨_, ht, .cancels hf hq⟩
  | calls ht hc =>
    rw [hc.happenings_call ht, List.mem_append, List.mem_singleton] at h
    rcases h with h | h
    · exact absurd h replied_not_mem_opening
    · cases h
  | concludes ht hc =>
    rw [hc.happenings_conclude ht, List.mem_append, List.mem_singleton] at h
    rcases h with h | h
    · exact absurd h replied_not_mem_opening
    · cases h
      exact ⟨_, ht, .concludes hc⟩

theorem Replies.not_over {c : Completion} (h : sys.Replies i t m c) :
    ¬ t.position.IsOver := by
  cases h with
  | cancels _ hq => exact hq.not_over
  | concludes hc => exact hc.not_over

theorem Replies.before_eq {c : Completion} (h : sys.Replies i t m c) :
    c.before = sys.state := by
  cases h <;> rfl

theorem began_of_mem {r : Request} {found : SessionState}
    (h : .began i r found ∈ m.happenings sys sys') :
    m = .takeTurn i ∧ found = sys.state ∧ ∃ t, sys.task? i = some t ∧ t.request = r := by
  have arrived {j : Nat} : .began i r found ∉ sys.arrival sys' j := by
    rw [arrival]
    split <;> simp
  cases m with
  | takeTurn j =>
    rcases List.mem_append.mp h with h | h
    · simp only [Move.opening, List.mem_map, Option.mem_toList] at h
      obtain ⟨t, ht, ⟨⟩⟩ := h
      exact ⟨rfl, rfl, t, ht, rfl⟩
    · exact absurd h arrived
  | _ => simp_all [Move.happenings, Move.opening]

theorem answered_of_mem {a : Answered} (h : .answered i a ∈ m.happenings sys sys') :
    m = .answer i a := by
  have arrived {j : Nat} : .answered i a ∉ sys.arrival sys' j := by
    rw [arrival]
    split <;> simp
  cases m with
  | answer j b =>
    rcases List.mem_append.mp h with h | h
    · cases List.mem_singleton.mp h
      rfl
    · exact absurd h arrived
  | _ => simp_all [Move.happenings, Move.opening]

theorem called_of_mem {call : Call} (h : .called i call ∈ m.happenings sys sys')
    (hm : sys.Step m sys') : ∃ t d resume, sys.task? i = some t ∧
      sys.Comes i t m (.await d call resume) ∧
      sys' = sys.setPosition i (.inCall d call resume) := by
  have opened : .called i call ∉ m.opening sys := by cases m <;> simp [Move.opening]
  cases step_entry hm with
  | silent hl => simp [hl] at h
  | cancels ht _ hq => simp [hq.happenings ht, opened] at h
  | calls ht hc =>
    simp only [hc.happenings_call ht, List.mem_append, opened, List.mem_singleton, false_or] at h
    cases h
    exact ⟨_, _, _, ht, hc, rfl⟩
  | concludes ht hc => simp [hc.happenings_conclude ht, opened] at h

end System

end LiveEdit
