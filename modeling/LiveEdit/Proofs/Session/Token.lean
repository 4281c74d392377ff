import LiveEdit.Proofs.Session.Log

/-! Once a task is over, or in a call that runs to its end, its token does not matter any more. -/
namespace LiveEdit.System

/-- The same system, with a task's token fired or not. -/
def withToken (sys : System) (i : Nat) (fired : Bool) : System :=
  { sys with tasks := sys.tasks.modify i fun t => { t with fired } }

/-- The task can give up no more: it is over, or in a call that runs to its end and is its last. -/
def Settled (sys : System) (i : Nat) : Prop :=
  ∃ t, sys.task? i = some t ∧ (t.position.IsOver ∨ ∃ call resume,
    t.position = .inCall .settled call resume ∧ ∀ result, ∃ f, resume result = .conclude f)

variable {origin sys sys' : System} {i j : Nat} {t : Task} {m : Move} {p : Position} {q : Plan}
  {fired : Bool} {hs : List Happening}

theorem task?_withToken : (sys.withToken i fired).task? j =
    if i = j then (sys.task? j).map fun t => { t with fired } else sys.task? j := by
  simp only [withToken, task?, List.getElem?_modify]
  split <;> simp

theorem task?_withToken_self (ht : sys.task? i = some t) :
    (sys.withToken i fired).task? i = some { t with fired } := by
  simp [task?_withToken, ht]

theorem task?_withToken_of_ne (hij : i ≠ j) : (sys.withToken i fired).task? j = sys.task? j := by
  simp [task?_withToken, hij]

theorem withToken_withToken (b : Bool) :
    (sys.withToken i b).withToken i fired = sys.withToken i fired := by
  simp only [withToken, List.modify_modify_eq]
  rfl

section commutes

theorem setPosition_withToken (i j : Nat) (p : Position) :
    (sys.withToken i fired).setPosition j p = (sys.setPosition j p).withToken i fired := by
  have htasks : (sys.tasks.modify i fun t => { t with fired }).modify j
        (fun t => { t with position := p }) =
      (sys.tasks.modify j fun t => { t with position := p }).modify i
        fun t => { t with fired } := by
    by_cases hij : i = j
    · subst hij
      rw [List.modify_modify_eq, List.modify_modify_eq]
      rfl
    · exact List.modify_modify_ne _ _ _ hij
  simp only [withToken, setPosition, htasks]

theorem leave_withToken (i j : Nat) (p : Position) :
    (sys.withToken i fired).leave j p = (sys.leave j p).withToken i fired := by
  rw [leave, setPosition_withToken]
  rfl

theorem fire_withToken (hij : i ≠ j) :
    (sys.withToken i fired).fire j = (sys.fire j).withToken i fired := by
  simp only [withToken, fire, List.modify_modify_ne _ _ _ hij]

theorem issue_withToken {r : Request} {b : Bool} (hi : i < sys.tasks.length) :
    (sys.withToken i fired).issue r b = (sys.issue r b).withToken i fired := by
  let issued : Task := { request := r, fired := b }
  have htasks : (sys.tasks.modify i fun t => { t with fired }) ++ [issued] =
      (sys.tasks ++ [issued]).modify i fun t => { t with fired } := by
    refine List.ext_getElem? fun n => ?_
    rw [List.getElem?_modify]
    by_cases hn : n < sys.tasks.length
    · rw [List.getElem?_append_left (by simpa using hn), List.getElem?_append_left hn,
        List.getElem?_modify]
    · have hne : i ≠ n := by omega
      rw [List.getElem?_append_right (by simp; omega), List.getElem?_append_right (by omega)]
      simp [hne]
  exact congrArg (fun tasks => { sys with tasks }) htasks

theorem reply?_withToken : (sys.withToken i fired).reply? j = sys.reply? j := by
  by_cases hij : i = j
  · subst hij
    cases ht : sys.task? i with
    | none => simp [reply?, task?_withToken, ht]
    | some t =>
      obtain ⟨r, b, position⟩ := t
      simp only [reply?, task?_withToken_self ht, ht]
      cases position <;> rfl
  · simp only [reply?, task?_withToken_of_ne hij]

theorem comes_withToken (h : sys.Comes j t m q) (ht : sys.task? j = some t) :
    ∃ u, (sys.withToken i fired).task? j = some u ∧ (sys.withToken i fired).Comes j u m q := by
  by_cases hij : i = j
  · subst hij
    refine ⟨{ t with fired }, task?_withToken_self ht, ?_⟩
    cases h with
    | turn hw hg => exact .turn hw hg
    | answer hp result => exact .answer (t := { t with fired }) hp result
  · refine ⟨t, (task?_withToken_of_ne hij).trans ht, ?_⟩
    cases h with
    | turn hw hg => exact .turn hw hg
    | answer hp result => exact .answer hp result

theorem opening_withToken : m.opening (sys.withToken i fired) = m.opening sys := by
  cases m with
  | takeTurn j =>
    by_cases hij : i = j
    · subst hij
      cases ht : sys.task? i with
      | none => simp [Move.opening, task?_withToken, ht]
      | some t =>
        simp only [Move.opening, task?_withToken_self ht, ht]
        rfl
    · simp only [Move.opening, task?_withToken_of_ne hij]
      rfl
  | _ => rfl

theorem arrival_withToken :
    (sys.withToken i fired).arrival (sys'.withToken i fired) j = sys.arrival sys' j := by
  by_cases hij : i = j
  · subst hij
    cases ht : sys'.task? i with
    | none => simp [arrival, task?_withToken, ht]
    | some t =>
      obtain ⟨r, b, position⟩ := t
      simp only [arrival, task?_withToken_self ht, ht]
      cases position <;> rfl
  · simp only [arrival, task?_withToken_of_ne hij]
    rfl

theorem happenings_withToken :
    m.happenings (sys.withToken i fired) (sys'.withToken i fired) = m.happenings sys sys' := by
  cases m <;> simp only [Move.happenings, opening_withToken, arrival_withToken]

end commutes

theorem settled_of_over (hs : sys.Settled i) (hp : p.IsOver) : (sys.setPosition j p).Settled i := by
  obtain ⟨t, ht, hs⟩ := hs
  by_cases hij : j = i
  · subst hij
    exact ⟨_, task?_setPosition_self ht, .inl hp⟩
  · exact ⟨t, (task?_setPosition_of_ne hij).trans ht, hs⟩

theorem Settled.not_waiting (h : sys.Settled i) (ht : sys.task? i = some t) :
    t.position ≠ .waiting := by
  obtain ⟨u, hu, hs⟩ := h
  cases ht.symm.trans hu
  rintro hw
  rcases hs with hover | ⟨call, resume, hp, -⟩
  · simp [hw, Position.IsOver] at hover
  · simp [hw] at hp

theorem Settled.not_interruptible {call : Call} {resume : Except Fault call.Answer → Plan}
    (h : sys.Settled i) (ht : sys.task? i = some t) :
    t.position ≠ .inCall .interruptible call resume := by
  obtain ⟨u, hu, hs⟩ := h
  cases ht.symm.trans hu
  rintro hp
  rcases hs with hover | ⟨call', resume', hp', -⟩
  · simp [hp, Position.IsOver] at hover
  · cases hp.symm.trans hp'

/-- Whatever a task comes to that can give up no more, it is its end. -/
theorem Settled.not_await {d : Discipline} {call : Call} {resume : Except Fault call.Answer → Plan}
    (h : sys.Settled i) (ht : sys.task? i = some t) :
    ¬ sys.Comes i t m (.await d call resume) := by
  intro hc
  generalize hq : Plan.await d call resume = q at hc
  cases hc with
  | turn hw => exact h.not_waiting ht hw
  | answer hp result =>
    obtain ⟨u, hu, hs⟩ := h
    cases ht.symm.trans hu
    rcases hs with hover | ⟨call', resume', hp', hlast⟩
    · simp [hp, Position.IsOver] at hover
    · cases hp.symm.trans hp'
      obtain ⟨f, hf⟩ := hlast result
      cases hq.trans hf

theorem Settled.not_givesUp (h : sys.Settled i) (ht : sys.task? i = some t) :
    ¬ sys.GivesUp i t m := by
  rintro hq
  cases hq with
  | atGate hw => exact h.not_waiting ht hw
  | beforeCall hc => exact h.not_await ht hc
  | inCall hp => exact h.not_interruptible ht hp

/-- A task that can give up no more never can again. -/
theorem settled_step (hm : sys.Step m sys') (h : sys.Settled i) : sys'.Settled i := by
  have kept {sys' : System} (ht : sys'.task? i = sys.task? i) : sys'.Settled i := by
    obtain ⟨t, hi, hs⟩ := h
    exact ⟨t, ht.trans hi, hs⟩
  cases step_change hm with
  | issues r fired =>
    obtain ⟨t, ht, -⟩ := id h
    exact kept (by rw [task?_issue, if_neg (Nat.ne_of_lt (task?_lt ht))])
  | fires j =>
    obtain ⟨t, ht, hs⟩ := h
    by_cases hij : j = i
    · exact ⟨{ t with fired := true }, by simp [task?_fire, hij, ht], hs⟩
    · exact ⟨t, by simp [task?_fire, hij, ht], hs⟩
  | stays => exact h
  | drops => exact settled_of_over (p := .dropped) h trivial
  | joins => exact kept rfl
  | cancels => exact settled_of_over (p := .ended _) h trivial
  | @calls j t _ _ _ _ ht _ hc =>
    have hij : j ≠ i := by
      rintro rfl
      exact h.not_await ht hc
    exact kept (task?_setPosition_of_ne hij)
  | concludes => exact settled_of_over (p := .ended _) h trivial

theorem arrive_withToken (h : sys.Settled i) (ht : sys.task? j = some t) (hc : sys.Comes j t m q) :
    (sys.withToken i fired).arrive j q = (sys.arrive j q).withToken i fired := by
  cases q with
  | conclude f =>
    simp only [arrive, leave_withToken]
    rfl
  | await d call resume =>
    have hij : i ≠ j := by
      rintro rfl
      exact h.not_await ht hc
    have hf : (sys.withToken i fired).hasFired j = sys.hasFired j := by
      simp only [hasFired, task?_withToken_of_ne hij]
    rw [arrive, arrive, hf]
    split
    · exact leave_withToken i j _
    · exact setPosition_withToken i j _

/-- What happens to a task that can give up no more does not hang on its token. -/
theorem step_withToken (hm : sys.Step m sys') (h : sys.Settled i) (hne : m ≠ .fire i) :
    (sys.withToken i fired).Step m (sys'.withToken i fired) := by
  cases hm with
  | issue r b =>
    obtain ⟨t, ht, -⟩ := h
    rw [← issue_withToken (task?_lt ht)]
    exact .issue r b
  | fire j =>
    have hij : i ≠ j := by
      rintro rfl
      exact hne rfl
    rw [← fire_withToken hij]
    exact .fire j
  | @drop j t ht =>
    have hdrop : (sys.withToken i fired).drop j = (sys.drop j).withToken i fired := by
      rw [drop, drop, reply?_withToken]
      split
      · rfl
      · exact leave_withToken i j _
    rw [← hdrop]
    by_cases hij : i = j
    · subst hij
      exact .drop (task?_withToken_self ht)
    · exact .drop ((task?_withToken_of_ne hij).trans ht)
  | @approach j t ht hw hg =>
    have hij : i ≠ j := by
      rintro rfl
      exact h.not_waiting ht hw
    have ht' : (sys.withToken i fired).task? j = some t := (task?_withToken_of_ne hij).trans ht
    have happroach : (sys.withToken i fired).approach j = (sys.approach j).withToken i fired := by
      rw [approach, approach, hasFired_eq ht, hasFired_eq ht']
      split
      · exact leave_withToken i j _
      · rfl
    rw [← happroach]
    exact .approach ht' hw hg
  | arrive ht hc =>
    obtain ⟨u, hu, hc'⟩ := comes_withToken hc ht
    rw [← arrive_withToken h ht hc]
    exact .arrive hu hc'
  | @giveUp j t call resume ht hp hf =>
    have hij : i ≠ j := by
      rintro rfl
      exact h.not_interruptible ht hp
    have ht' : (sys.withToken i fired).task? j = some t := (task?_withToken_of_ne hij).trans ht
    have hgiveUp : (sys.withToken i fired).giveUp j = (sys.giveUp j).withToken i fired := by
      obtain ⟨r, b, position⟩ := t
      subst hp hf
      simp only [giveUp, ht, ht']
      exact leave_withToken i j _
    rw [← hgiveUp]
    exact .giveUp ht' hp hf

/-- Every run is one for either token of a task that can give up no more, with the same log. -/
theorem Run.withToken (h : sys.Run hs sys') (hs' : sys.Settled i) (fired : Bool) :
    (sys.withToken i fired).Run hs (sys'.withToken i fired) ∧ sys'.Settled i := by
  induction h with
  | nil => exact ⟨.nil, hs'⟩
  | @snoc hs u v m h hm ih =>
    obtain ⟨hrun, hu⟩ := ih
    refine ⟨?_, settled_step hm hu⟩
    by_cases hfire : m = .fire i
    · subst hfire
      cases hm with
      | fire =>
        have heq : (u.fire i).withToken i fired = u.withToken i fired := withToken_withToken true
        rw [heq, show (Move.fire i).happenings u (u.fire i) = [] from rfl, List.append_nil]
        exact hrun
      | arrive _ hc => cases hc
    · have hstep : (u.withToken i fired).Step m (v.withToken i fired) := step_withToken hm hu hfire
      exact happenings_withToken (m := m) ▸ hrun.snoc hstep

end LiveEdit.System
