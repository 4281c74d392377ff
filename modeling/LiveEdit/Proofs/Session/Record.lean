import LiveEdit.Proofs.Session.Run

/-! What a log says of a task agrees with where the task stands. -/
namespace LiveEdit.System

variable {origin sys sys' : System} {i j : Nat} {t u : Task} {m : Move} {hs : List Happening}

/-- A task goes on from where it stood: it never waits again, and an end is an end. -/
structure GoesOn (t t' : Task) : Prop where
  request : t'.request = t.request
  begun (h : t.position ≠ .waiting) : t'.position ≠ .waiting
  stays (h : t.position.IsOver) : t'.position = t.position

theorem goesOn_refl (t : Task) : GoesOn t t := ⟨rfl, id, fun _ => rfl⟩

theorem goesOn_at {p : Position} (ht : sys.task? i = some t) (hj : sys.task? j = some u)
    (h : t.position.IsOver → p = t.position) (hp : p ≠ .waiting) :
    ∃ u', (sys.setPosition i p).task? j = some u' ∧ GoesOn u u' := by
  by_cases hij : i = j
  · subst hij
    cases ht.symm.trans hj
    exact ⟨_, task?_setPosition_self ht, rfl, fun _ => hp, h⟩
  · exact ⟨u, (task?_setPosition_of_ne hij).trans hj, goesOn_refl u⟩

theorem goesOn_step (hm : sys.Step m sys') (hj : sys.task? j = some u) :
    ∃ u', sys'.task? j = some u' ∧ GoesOn u u' := by
  cases step_change hm with
  | issues r fired =>
    exact ⟨u, by rw [task?_issue, if_neg (Nat.ne_of_lt (task?_lt hj)), hj], goesOn_refl u⟩
  | fires i =>
    by_cases hij : i = j
    · exact ⟨{ u with fired := true }, by simp [task?_fire, hij, hj], rfl, id, fun _ => rfl⟩
    · exact ⟨u, by simp [task?_fire, hij, hj], goesOn_refl u⟩
  | stays => exact ⟨u, hj, goesOn_refl u⟩
  | @drops i t ht hr =>
    refine goesOn_at ht hj (fun ho => ?_) (by simp)
    cases hp : t.position with
    | ended r => simp [(reply?_eq_some_iff ht).mpr hp] at hr
    | dropped => rfl
    | _ => simp [hp, Position.IsOver] at ho
  | joins => exact ⟨u, hj, goesOn_refl u⟩
  | cancels ht _ hq => exact goesOn_at ht hj (fun ho => absurd ho hq.not_over) (by simp)
  | calls ht _ hc => exact goesOn_at ht hj (fun ho => absurd ho hc.not_over) (by simp)
  | concludes ht hc => exact goesOn_at ht hj (fun ho => absurd ho hc.not_over) (by simp)

/-- What happened to a task shows in its position. -/
def Shows (sys : System) : Happening → Prop
  | .began i r _ => ∃ t, sys.task? i = some t ∧ t.request = r ∧ t.position ≠ .waiting
  | .called i _ | .answered i _ => ∃ t, sys.task? i = some t ∧ t.position ≠ .waiting
  | .replied i c => ∃ t, sys.task? i = some t ∧ t.request = c.request ∧ t.position = .ended c.reply

theorem shows_step (hm : sys.Step m sys') {h : Happening} (hs : sys.Shows h) : sys'.Shows h := by
  cases h with
  | began i r found =>
    obtain ⟨t, ht, hr, hp⟩ := hs
    obtain ⟨t', ht', hgo⟩ := goesOn_step hm ht
    exact ⟨t', ht', hgo.request.trans hr, hgo.begun hp⟩
  | called i call =>
    obtain ⟨t, ht, hp⟩ := hs
    obtain ⟨t', ht', hgo⟩ := goesOn_step hm ht
    exact ⟨t', ht', hgo.begun hp⟩
  | answered i a =>
    obtain ⟨t, ht, hp⟩ := hs
    obtain ⟨t', ht', hgo⟩ := goesOn_step hm ht
    exact ⟨t', ht', hgo.begun hp⟩
  | replied i c =>
    obtain ⟨t, ht, hr, hp⟩ := hs
    obtain ⟨t', ht', hgo⟩ := goesOn_step hm ht
    exact ⟨t', ht', hgo.request.trans hr, (hgo.stays (hp ▸ trivial)).trans hp⟩

theorem shows_opening (ht : sys.task? i = some t) (hi : m.task? = some i)
    (ht' : sys'.task? i = some u) (hr : u.request = t.request) (hp : u.position ≠ .waiting) :
    ∀ h ∈ m.opening sys, sys'.Shows h := by
  intro h hh
  cases m with
  | takeTurn j =>
    cases hi
    simp only [Move.opening, ht, Option.toList_some, List.map_cons, List.map_nil,
      List.mem_singleton] at hh
    subst hh
    exact ⟨u, ht', hr, hp⟩
  | answer j a =>
    cases hi
    simp only [Move.opening, List.mem_singleton] at hh
    subst hh
    exact ⟨u, ht', hp⟩
  | _ => simp [Move.opening] at hh

theorem shows_moved {e : Happening} (ht : sys.task? i = some t) (hi : m.task? = some i)
    (ht' : sys'.task? i = some u) (hr : u.request = t.request) (hp : u.position ≠ .waiting)
    (hm : m.happenings sys sys' = m.opening sys ++ [e]) (he : sys'.Shows e) :
    ∀ h ∈ m.happenings sys sys', sys'.Shows h := by
  rw [hm]
  intro h hh
  rcases List.mem_append.mp hh with hh | hh
  · exact shows_opening ht hi ht' hr hp h hh
  · exact List.mem_singleton.mp hh ▸ he

theorem shows_happenings (hm : sys.Step m sys') : ∀ h ∈ m.happenings sys sys', sys'.Shows h := by
  cases step_entry hm with
  | silent hl => simp [hl]
  | @cancels i t ht _ hq =>
    have ht' : (sys.leave i (.ended .cancelled)).task? i =
      some { t with position := .ended .cancelled } := task?_setPosition_self ht
    exact shows_moved ht hq.task?_eq ht' rfl (by simp) (hq.happenings ht) ⟨_, ht', rfl, rfl⟩
  | @calls i t d call resume ht hc =>
    have ht' := task?_setPosition_self (p := .inCall d call resume) ht
    exact shows_moved ht hc.task?_eq ht' rfl (by simp) (hc.happenings_call ht) ⟨_, ht', by simp⟩
  | @concludes i t f ht hc =>
    have ht' : (sys.conclude i (f sys.state)).task? i =
      some { t with position := .ended (f sys.state).reply } := task?_setPosition_self ht
    exact shows_moved ht hc.task?_eq ht' rfl (by simp) (hc.happenings_conclude ht)
      ⟨_, ht', rfl, rfl⟩

theorem Run.shows (h : origin.Run hs sys) : ∀ e ∈ hs, sys.Shows e := by
  induction h with
  | nil => simp
  | snoc h hm ih =>
    intro e he
    rcases List.mem_append.mp he with he | he
    · exact shows_step hm (ih e he)
    · exact shows_happenings hm e he

end LiveEdit.System
