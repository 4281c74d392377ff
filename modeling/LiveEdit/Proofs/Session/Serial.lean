import LiveEdit.Proofs.Session.Mirror
import LiveEdit.Proofs.Session.Record

/-! Requests under way together come to what they come to one after the other, in gate order. -/
namespace LiveEdit

/-- The tasks that got the gate, in the order in which they got it. -/
def turnsOf (hs : List Happening) : List Nat := hs.filterMap fun
  | .began i r _ => if r.takesGate then some i else none
  | _ => none

def Call.asksEngine : Call → Bool
  | .currentSnapshot => false
  | _ => true

def engineCallsOf (hs : List Happening) : List Call := hs.filterMap fun
  | .called _ call => if call.asksEngine then some call else none
  | _ => none

def answersTo (i : Nat) (hs : List Happening) : List Answered := hs.filterMap fun
  | .answered j a => if j = i then some a else none
  | _ => none

namespace System

variable {origin sys sys' ser : System} {i j k : Nat} {t u : Task} {m : Move} {p : Position}
  {hs hs' : List Happening} {turns : List Nat}

/-- The log of the images has the calls to the engine and the answers of the log. -/
structure SameLog (turns : List Nat) (hs hs' : List Happening) : Prop where
  calls : engineCallsOf hs' = engineCallsOf hs
  answers {k i : Nat} (hk : turns[k]? = some i) : answersTo k hs' = answersTo i hs

theorem turnsOf_append (a b : List Happening) : turnsOf (a ++ b) = turnsOf a ++ turnsOf b :=
  List.filterMap_append

theorem engineCallsOf_append (a b : List Happening) :
    engineCallsOf (a ++ b) = engineCallsOf a ++ engineCallsOf b := List.filterMap_append

theorem answersTo_append (a b : List Happening) :
    answersTo i (a ++ b) = answersTo i a ++ answersTo i b := List.filterMap_append

theorem engineCallsOf_opening : engineCallsOf (m.opening sys) = [] := by
  cases m with
  | takeTurn i => cases h : sys.task? i <;> simp [Move.opening, h, engineCallsOf]
  | _ => rfl

theorem turnsOf_arrival : turnsOf (sys.arrival sys' i) = [] := by
  rw [arrival]
  split <;> rfl

theorem answersTo_arrival : answersTo j (sys.arrival sys' i) = [] := by
  rw [arrival]
  split <;> rfl

theorem engineCallsOf_arrival {ser' : System} (h : ser'.task? k = sys'.task? i) :
    engineCallsOf (ser.arrival ser' k) = engineCallsOf (sys.arrival sys' i) := by
  rw [arrival, arrival, h]
  split <;> rfl

theorem mem_turnsOf : i ∈ turnsOf hs ↔ ∃ r found, .began i r found ∈ hs ∧ r.takesGate = true := by
  simp only [turnsOf, List.mem_filterMap]
  constructor
  · rintro ⟨e, he, hi⟩
    cases e with
    | began j r found =>
      simp only [Option.ite_none_right_eq_some, Option.some.injEq] at hi
      obtain ⟨hg, rfl⟩ := hi
      exact ⟨r, found, he, hg⟩
    | _ => cases hi
  · rintro ⟨r, found, he, hg⟩
    exact ⟨_, he, by simp [hg]⟩

/-- Who had a turn takes the gate and does not wait any more. -/
theorem Run.begun (h : origin.Run hs sys) (hi : i ∈ turnsOf hs) :
    ∃ t, sys.task? i = some t ∧ t.request.takesGate = true ∧ t.position ≠ .waiting := by
  obtain ⟨r, found, he, hg⟩ := mem_turnsOf.mp hi
  obtain ⟨t, ht, rfl, hp⟩ := h.shows _ he
  exact ⟨t, ht, hg, hp⟩

theorem Run.not_mem_turnsOf (h : origin.Run hs sys) (ht : sys.task? i = some t)
    (hw : t.position = .waiting) : i ∉ turnsOf hs := by
  intro hi
  obtain ⟨u, hu, -, hp⟩ := h.begun hi
  cases ht.symm.trans hu
  exact hp hw

theorem Run.not_mem_turnsOf_of_no_gate (h : origin.Run hs sys) (ht : sys.task? i = some t)
    (hg : t.request.takesGate = false) : i ∉ turnsOf hs := by
  intro hi
  obtain ⟨u, hu, hgu, -⟩ := h.begun hi
  cases ht.symm.trans hu
  simp [hg] at hgu

theorem Run.answersTo_eq_nil (h : origin.Run hs sys)
    (hw : ∀ t, sys.task? i = some t → t.position = .waiting) : answersTo i hs = [] := by
  refine List.filterMap_eq_nil_iff.mpr fun e he => ?_
  cases e with
  | answered j a =>
    obtain ⟨t, ht, hp⟩ := h.shows _ he
    have hij : j ≠ i := by
      rintro rfl
      exact hp (hw t ht)
    simp [hij]
  | _ => rfl

theorem mem_happenings_turn {q : Plan} (hc : sys.Comes i t m q) (ht : sys.task? i = some t)
    (hw : t.position = .waiting) :
    .began i t.request sys.state ∈ m.happenings sys sys' := by
  cases hc with
  | turn => simp [Move.happenings, Move.opening, ht]
  | answer hp => simp [hw] at hp

/-- A task that takes the gate and had no turn was at most called off. -/
theorem Run.without_turn (h : origin.Run hs sys) (ho : origin.IsFresh)
    (ht : sys.task? i = some t) (hg : t.request.takesGate = true) (hi : i ∉ turnsOf hs) :
    t.position = .waiting ∨ t.position = .dropped ∨ t.position = .ended .cancelled := by
  induction h generalizing i t with
  | nil => simp [task?, ho.tasks] at ht
  | @snoc hs sys sys' m h hm ih =>
    rw [turnsOf_append, List.mem_append, not_or] at hi
    have moved {j : Nat} {u : Task} {p : Position} (hu : sys.task? j = some u)
        (ht : (sys.setPosition j p).task? i = some t) (hp : j = i → t.position = p →
          t.request = u.request → t.position = .waiting ∨ t.position = .dropped ∨
            t.position = .ended .cancelled) :
        t.position = .waiting ∨ t.position = .dropped ∨ t.position = .ended .cancelled := by
      by_cases hji : j = i
      · subst hji
        rw [task?_setPosition_self hu] at ht
        cases ht
        exact hp rfl rfl rfl
      · exact ih (task?_setPosition_of_ne hji ▸ ht) hg hi.1
    have served {j : Nat} {u : Task} {q : Plan} (hu : sys.task? j = some u)
        (hc : sys.Comes j u m q) (hji : j = i) (hr : t.request = u.request) : False := by
      subst hji
      rw [hr] at hg
      rcases ih hu hg hi.1 with hp | hp | hp
      · exact hi.2 (mem_turnsOf.mpr ⟨_, _, mem_happenings_turn hc hu hp, hg⟩)
      · exact hc.not_over (hp ▸ trivial)
      · exact hc.not_over (hp ▸ trivial)
    cases step_change hm with
    | issues r fired =>
      rw [task?_issue] at ht
      split at ht
      · cases ht
        exact .inl rfl
      · exact ih ht hg hi.1
    | fires j =>
      rw [task?_fire] at ht
      split at ht
      · obtain ⟨u, hu, rfl⟩ := Option.map_eq_some_iff.mp ht
        have hpos := ih hu hg hi.1
        exact hpos
      · exact ih ht hg hi.1
    | stays => exact ih ht hg hi.1
    | drops hu => exact moved hu ht fun _ hp _ => .inr (.inl hp)
    | joins => exact ih ht hg hi.1
    | cancels hu => exact moved hu ht fun _ hp _ => .inr (.inr hp)
    | calls hu _ hc => exact moved hu ht fun hji _ hr => (served hu hc hji hr).elim
    | concludes hu hc => exact moved hu ht fun hji _ hr => (served hu hc hji hr).elim

theorem Run.mem_turnsOf_of_inCall {d : Discipline} {call : Call}
    {resume : Except Fault call.Answer → Plan} (h : origin.Run hs sys) (ho : origin.IsFresh)
    (ht : sys.task? i = some t) (hg : t.request.takesGate = true)
    (hp : t.position = .inCall d call resume) : i ∈ turnsOf hs := by
  refine Decidable.byContradiction fun hi => ?_
  rcases h.without_turn ho ht hg hi with hw | hw | hw <;> simp [hw] at hp

theorem SameLog.append {a a' : List Happening} (h : SameLog turns hs hs')
    (hc : engineCallsOf a' = engineCallsOf a)
    (ha : ∀ {k i}, turns[k]? = some i → answersTo k a' = answersTo i a) :
    SameLog turns (hs ++ a) (hs' ++ a') where
  calls := by rw [engineCallsOf_append, engineCallsOf_append, h.calls, hc]
  answers hk := by rw [answersTo_append, answersTo_append, h.answers hk, ha hk]

/-- What tasks without a turn do is no part of the log of the images. -/
theorem SameLog.append_other {a : List Happening} (h : SameLog turns hs hs')
    (hc : engineCallsOf a = []) (ha : ∀ {i}, i ∈ turns → answersTo i a = []) :
    SameLog turns (hs ++ a) hs' where
  calls := by rw [engineCallsOf_append, h.calls, hc, List.append_nil]
  answers hk := by
    rw [answersTo_append, h.answers hk, ha (List.mem_of_getElem? hk), List.append_nil]

theorem SameLog.admit {ser : System} (h : SameLog turns hs hs') (hM : sys.Mirrors turns ser)
    (hr : origin.Run hs sys) (hr' : origin.Run hs' ser) (ht : sys.task? i = some t)
    (hw : t.position = .waiting) : SameLog (turns ++ [i]) hs hs' where
  calls := h.calls
  answers {k j} hk := by
    by_cases hlt : k < turns.length
    · rw [List.getElem?_append_left hlt] at hk
      exact h.answers hk
    · have hkl := (List.getElem?_eq_some_iff.mp hk).1
      simp only [List.length_append, List.length_singleton] at hkl
      obtain rfl : k = turns.length := by omega
      obtain rfl : i = j := by simpa using hk
      rw [hr.answersTo_eq_nil fun u hu => by cases ht.symm.trans hu; exact hw,
        hr'.answersTo_eq_nil fun u hu => by
          have := task?_lt hu
          rw [hM.length_eq] at this
          omega]

/-- A run with its image: the requests that had their turn, one after the other. -/
structure Serialized (origin : System) (turns : List Nat) (hs : List Happening) (sys : System)
    (hs' : List Happening) (ser : System) : Prop where
  serial : origin.SerialRun hs' ser
  mirrors : sys.Mirrors turns ser
  log : SameLog turns hs hs'

/-- What a task without a turn does needs no step of the image. -/
theorem Serialized.stutter {a : List Happening} (h : origin.Serialized turns hs sys hs' ser)
    (hM : sys'.Mirrors turns ser) (hc : engineCallsOf a = [])
    (ha : ∀ {i}, i ∈ turns → answersTo i a = []) :
    origin.Serialized turns (hs ++ a) sys' hs' ser :=
  ⟨h.serial, hM, h.log.append_other hc ha⟩

theorem Serialized.follow {a : List Happening} {ser' : System} {m' : Move}
    (h : origin.Serialized turns hs sys hs' ser) (hm : ser.Step m' ser')
    (hq : ∀ r fired, m' ≠ .issue r fired) (hM : sys'.Mirrors turns ser')
    (hc : engineCallsOf (m'.happenings ser ser') = engineCallsOf a)
    (ha : ∀ {k i}, turns[k]? = some i →
      answersTo k (m'.happenings ser ser') = answersTo i a) :
    origin.Serialized turns (hs ++ a) sys' (hs' ++ m'.happenings ser ser') ser' :=
  ⟨h.serial.snoc hm fun r fired hi => absurd hi (hq r fired), hM, h.log.append hc ha⟩

/-- The image of a task comes to the plan that the task comes to. -/
theorem Mirrors.comes {q : Plan} (h : sys.Mirrors turns ser) (hk : turns[k]? = some i)
    (hc : sys.Comes i t m q) (ht : sys.task? i = some t) (hh : sys.gate.holder = some i) :
    ∃ m', ser.Comes k t m' q ∧ (∀ r fired, m' ≠ .issue r fired) ∧
      ∀ {n j}, turns[n]? = some j → answersTo n (m'.opening ser) = answersTo j (m.opening sys) := by
  have htk : ser.task? k = some t := (h.task?_eq hk).trans ht
  cases hc with
  | turn hw =>
    have hp : ser.planOf t.request = sys.planOf t.request := by
      simp only [planOf, h.settings, h.state]
    have hhk : ser.gate.holder = some k := by
      rcases h.gate with ⟨earlier, l, rfl, hl, hgate⟩ | ⟨hn, -⟩
      · cases hh.symm.trans hl
        rw [hgate, h.index_eq hk (n := earlier.length) (by simp)]
      · exact absurd hh (hn i (List.mem_of_getElem? hk))
    refine ⟨.takeTurn k, hp ▸ .turn hw fun _ => hhk, by simp, fun _ => ?_⟩
    simp [Move.opening, htk, ht, answersTo]
  | @answer d call resume hp result =>
    refine ⟨.answer k ⟨call, result⟩, .answer hp result, by simp, fun {n j} hn => ?_⟩
    by_cases hkn : k = n
    · subst hkn
      cases hk.symm.trans hn
      simp [Move.opening, answersTo]
    · have hij : i ≠ j := by
        rintro rfl
        exact hkn (h.index_eq hk hn)
      simp [Move.opening, answersTo, hkn, hij]

/-- A task with its turn arrives at a plan, and its image does. -/
theorem Serialized.arrive {q : Plan} (h : origin.Serialized turns hs sys hs' ser)
    (hk : turns[k]? = some i) (hc : sys.Comes i t m q) (ht : sys.task? i = some t)
    (hh : sys.gate.holder = some i)
    (hp : ∀ f, q = .conclude f → ownEffects (f sys.state).effects = (f sys.state).effects) :
    ∃ hs' ser, origin.Serialized turns (hs ++ m.happenings sys (sys.arrive i q))
      (sys.arrive i q) hs' ser := by
  obtain ⟨m', hc', hq, hanswers⟩ := h.mirrors.comes hk hc ht hh
  have hM := h.mirrors.arrive hk hp
  have htk : ser.task? k = some t := (h.mirrors.task?_eq hk).trans ht
  refine ⟨_, _, h.follow (.arrive htk hc') hq hM ?_ fun {n j} hn => ?_⟩
  · rw [hc'.happenings, hc.happenings, engineCallsOf_append, engineCallsOf_append,
      engineCallsOf_opening, engineCallsOf_opening, engineCallsOf_arrival (hM.task?_eq hk)]
  · rw [hc'.happenings, hc.happenings, answersTo_append, answersTo_append, hanswers hn,
      answersTo_arrival, answersTo_arrival]

theorem giveUp_eq {call : Call} {resume : Except Fault call.Answer → Plan}
    (ht : sys.task? i = some t) (hp : t.position = .inCall .interruptible call resume)
    (hf : t.fired = true) : sys.giveUp i = sys.leave i (.ended .cancelled) := by
  obtain ⟨r, fired, position⟩ := t
  subst hp hf
  simp [giveUp, ht]

theorem drop_eq (h : sys.reply? i = none) : sys.drop i = sys.leave i .dropped := by
  simp [drop, h]

/-- Without the gate no arrival calls the engine. -/
theorem engineCallsOf_arrive {q : Plan} (hq : sys.OnCourse t.request q)
    (hg : t.request.takesGate = false) (ht : sys.task? i = some t) :
    engineCallsOf (sys.arrival (sys.arrive i q) i) = [] := by
  cases q with
  | conclude f =>
    have ht' : (sys.arrive i (.conclude f)).task? i =
      some { t with position := .ended (f sys.state).reply } := task?_setPosition_self ht
    rw [arrival, ht']
    rfl
  | await d call resume =>
    cases call_of_no_gate hq hg
    rw [System.arrive, hasFired_eq ht]
    cases t.fired with
    | true =>
      rw [if_pos rfl, arrival, task?_leave, task?_setPosition_self ht]
      rfl
    | false =>
      rw [if_neg (by simp), arrival, task?_setPosition_self ht]
      rfl

theorem turnsOf_takeTurn (ht : sys.task? i = some t) :
    turnsOf ((Move.takeTurn i).opening sys) = if t.request.takesGate then [i] else [] := by
  cases hg : t.request.takesGate <;> simp [Move.opening, ht, hg, turnsOf]

theorem turnsOf_silent {a : List Happening} (h : turnsOf a = []) :
    turnsOf (hs ++ a) = turnsOf hs := by
  rw [turnsOf_append, h, List.append_nil]

/-- A task without the gate arrives at a plan, unseen by the image. -/
theorem serialized_arrive_other {q : Plan} (hr : origin.Run hs sys) (ho : origin.IsFresh)
    (ht : sys.task? i = some t) (hg : t.request.takesGate = false) (hc : sys.Comes i t m q)
    (h : origin.Serialized (turnsOf hs) hs sys hs' ser) :
    origin.Serialized (turnsOf (hs ++ m.happenings sys (sys.arrive i q)))
      (hs ++ m.happenings sys (sys.arrive i q)) (sys.arrive i q) hs' ser := by
  have hi := hr.not_mem_turnsOf_of_no_gate ht hg
  have hq := onCourse_of_comes (hr.planned ho) ht hc
  have hturns : turnsOf (m.opening sys) = [] := by
    cases hc with
    | turn => simp [turnsOf_takeTurn ht, hg]
    | answer => rfl
  have hanswers {j : Nat} (hj : j ∈ turnsOf hs) : answersTo j (m.opening sys) = [] := by
    cases hc with
    | turn => simp [Move.opening, ht, answersTo]
    | answer =>
      have hij : i ≠ j := by
        rintro rfl
        exact hi hj
      simp [Move.opening, answersTo, hij]
  rw [hc.happenings, turnsOf_silent (by rw [turnsOf_append, hturns, turnsOf_arrival]; rfl)]
  refine h.stutter (h.mirrors.arrive_other hi fun f hf => ?_) ?_ fun hj => ?_
  · exact state_of_no_gate (hf ▸ hq) hg _
  · rw [engineCallsOf_append, engineCallsOf_opening, engineCallsOf_arrive hq hg ht]
    rfl
  · rw [answersTo_append, hanswers hj, answersTo_arrival]
    rfl

/-- A task with the gate arrives at a plan: at once after its image was made, or later. -/
theorem serialized_arrive {q : Plan} (hr : origin.Run hs sys) (ho : origin.IsFresh)
    (ht : sys.task? i = some t) (hg : t.request.takesGate = true) (hc : sys.Comes i t m q)
    (h : origin.Serialized (turnsOf hs) hs sys hs' ser) :
    ∃ hs' ser, origin.Serialized (turnsOf (hs ++ m.happenings sys (sys.arrive i q)))
      (hs ++ m.happenings sys (sys.arrive i q)) (sys.arrive i q) hs' ser := by
  have hord := hr.orderly ho
  have hq := onCourse_of_comes (hr.planned ho) ht hc
  have hh := hord.holder_of_comes ht hc hg
  have hp (f : SessionState → Conclusion) (hf : q = .conclude f) :
      ownEffects (f sys.state).effects = (f sys.state).effects :=
    (ending_of_onCourse (hf ▸ hq) hg).own
  cases hc with
  | turn hw hgate =>
    have hi := hr.not_mem_turnsOf ht hw
    have hover : ∀ j ∈ turnsOf hs, ∀ u, sys.task? j = some u → u.position.IsOver := by
      intro j hj u hu
      obtain ⟨u', hu', hgu, hpu⟩ := hr.begun hj
      cases hu.symm.trans hu'
      cases hpos : u.position with
      | waiting => exact absurd hpos hpu
      | inCall d call resume =>
        cases hh.symm.trans (hord.inCall hu hgu hpos)
        exact absurd hj hi
      | ended reply => trivial
      | dropped => trivial
    obtain ⟨ser', hser, hM⟩ := h.mirrors.admit h.serial ht hw hg hh hi (hord.apart hh) hover
    have hlog := h.log.admit h.mirrors hr h.serial.run ht hw
    have hk : (turnsOf hs ++ [i])[(turnsOf hs).length]? = some i := by simp
    have hturns : turnsOf (hs ++ (Move.takeTurn i).happenings sys
        (sys.arrive i (sys.planOf t.request))) = turnsOf hs ++ [i] := by
      rw [(Comes.turn hw hgate).happenings, turnsOf_append, turnsOf_append, turnsOf_takeTurn ht,
        if_pos hg, turnsOf_arrival, List.append_nil]
    rw [hturns]
    exact Serialized.arrive ⟨hser, hM, hlog⟩ hk (.turn hw hgate) ht hh hp
  | answer hpos result =>
    obtain ⟨k, hk⟩ := List.mem_iff_getElem?.mp (hr.mem_turnsOf_of_inCall ho ht hg hpos)
    rw [turnsOf_silent (by
      rw [(Comes.answer hpos result).happenings, turnsOf_append, turnsOf_arrival]; rfl)]
    exact h.arrive hk (.answer hpos result) ht hh hp

/-- Whoever is dropped is dropped from the serial run if it had its turn. -/
theorem serialized_drop (ht : sys.task? i = some t)
    (h : origin.Serialized (turnsOf hs) hs sys hs' ser) :
    ∃ hs' ser, origin.Serialized (turnsOf (hs ++ (Move.drop i).happenings sys (sys.drop i)))
      (hs ++ (Move.drop i).happenings sys (sys.drop i)) (sys.drop i) hs' ser := by
  rw [turnsOf_silent rfl]
  cases hrep : sys.reply? i with
  | some reply =>
    have hs : sys.drop i = sys := by simp [drop, hrep]
    rw [hs]
    exact ⟨_, _, h.stutter h.mirrors rfl fun _ => rfl⟩
  | none =>
    rw [drop_eq hrep]
    by_cases hi : i ∈ turnsOf hs
    · obtain ⟨k, hk⟩ := List.mem_iff_getElem?.mp hi
      have htk := h.mirrors.task?_eq hk
      have hrepk : ser.reply? k = none := by rw [← hrep, reply?, reply?, htk]
      have hd : ser.Step (.drop k) (ser.leave k .dropped) := by
        rw [← drop_eq hrepk]
        exact .drop (htk.trans ht)
      exact ⟨_, _, h.follow hd (by simp) (h.mirrors.leave hk) rfl fun _ => rfl⟩
    · exact ⟨_, _, h.stutter (h.mirrors.leave_other hi) rfl fun _ => rfl⟩

theorem serialized_giveUp {call : Call} {resume : Except Fault call.Answer → Plan}
    (hr : origin.Run hs sys) (ho : origin.IsFresh) (ht : sys.task? i = some t)
    (hp : t.position = .inCall .interruptible call resume) (hf : t.fired = true)
    (h : origin.Serialized (turnsOf hs) hs sys hs' ser) :
    ∃ hs' ser, origin.Serialized (turnsOf (hs ++ (Move.giveUp i).happenings sys (sys.giveUp i)))
      (hs ++ (Move.giveUp i).happenings sys (sys.giveUp i)) (sys.giveUp i) hs' ser := by
  rw [giveUp_eq ht hp hf, (GivesUp.inCall hp).happenings ht, turnsOf_silent rfl]
  cases hg : t.request.takesGate with
  | false =>
    have hi := hr.not_mem_turnsOf_of_no_gate ht hg
    exact ⟨_, _, h.stutter (h.mirrors.leave_other hi) rfl fun _ => rfl⟩
  | true =>
    obtain ⟨k, hk⟩ := List.mem_iff_getElem?.mp (hr.mem_turnsOf_of_inCall ho ht hg hp)
    have htk := (h.mirrors.task?_eq hk).trans ht
    have hd : ser.Step (.giveUp k) (ser.leave k (.ended .cancelled)) := by
      rw [← giveUp_eq htk hp hf]
      exact .giveUp htk hp hf
    refine ⟨_, _, h.follow hd (by simp) (h.mirrors.leave hk) ?_ fun _ => ?_⟩
    · rw [(GivesUp.inCall hp).happenings htk]
      rfl
    · rw [(GivesUp.inCall hp).happenings htk]
      rfl

theorem serialized_step (hr : origin.Run hs sys) (ho : origin.IsFresh) (hm : sys.Step m sys')
    (h : origin.Serialized (turnsOf hs) hs sys hs' ser) :
    ∃ hs' ser, origin.Serialized (turnsOf (hs ++ m.happenings sys sys'))
      (hs ++ m.happenings sys sys') sys' hs' ser := by
  cases hm with
  | issue r fired =>
    rw [turnsOf_silent rfl]
    refine ⟨_, _, h.stutter (h.mirrors.issue fun i hi => ?_) rfl fun _ => rfl⟩
    obtain ⟨t, ht, -⟩ := hr.begun hi
    exact task?_lt ht
  | fire i =>
    rw [turnsOf_silent rfl]
    by_cases hi : i ∈ turnsOf hs
    · obtain ⟨k, hk⟩ := List.mem_iff_getElem?.mp hi
      exact ⟨_, _, h.follow (.fire k) (by simp) (h.mirrors.modify hk _) rfl fun _ => rfl⟩
    · exact ⟨_, _, h.stutter (h.mirrors.modify_other hi _) rfl fun _ => rfl⟩
  | drop ht => exact serialized_drop ht h
  | @approach i t ht hw hg =>
    have hi := hr.not_mem_turnsOf ht hw
    cases hf : t.fired with
    | false =>
      rw [approach_eq ht hf, happenings_join ht hw, turnsOf_silent rfl]
      exact ⟨_, _, h.stutter (h.mirrors.join hi) rfl fun _ => rfl⟩
    | true =>
      have heq : sys.approach i = sys.leave i (.ended .cancelled) := by
        simp [approach, hasFired_eq ht, hf]
      rw [heq, (GivesUp.atGate hw hg).happenings ht, turnsOf_silent rfl]
      exact ⟨_, _, h.stutter (h.mirrors.leave_other hi) rfl fun _ => rfl⟩
  | @arrive i t m q ht hc =>
    cases hg : t.request.takesGate with
    | false => exact ⟨_, _, serialized_arrive_other hr ho ht hg hc h⟩
    | true => exact serialized_arrive hr ho ht hg hc h
  | giveUp ht hp hf => exact serialized_giveUp hr ho ht hp hf h

theorem Run.serialized (h : origin.Run hs sys) (ho : origin.IsFresh) :
    ∃ hs' ser, origin.Serialized (turnsOf hs) hs sys hs' ser := by
  induction h with
  | nil => exact ⟨[], origin, .nil, mirrors_fresh ho, rfl, nofun⟩
  | snoc h hm ih =>
    obtain ⟨hs', ser, hser⟩ := ih
    exact serialized_step h ho hm hser

end System

end LiveEdit
