import LiveEdit.Proofs.Session.Cancellation
import LiveEdit.Proofs.Session.Disabled

/-! A log has the end of each task that came to one, and has it once. -/
namespace LiveEdit

/-- How the tasks of a client ended, one after the other. -/
def endsOf (own : List Nat) (hs : List Happening) : List Completion := hs.filterMap fun
  | .replied i c => if i ∈ own then some c else none
  | _ => none

variable {own own' : List Nat} {hs hs' : List Happening} {c : Completion}

theorem endsOf_append (own : List Nat) (a b : List Happening) :
    endsOf own (a ++ b) = endsOf own a ++ endsOf own b := List.filterMap_append

theorem mem_endsOf : c ∈ endsOf own hs ↔ ∃ i ∈ own, .replied i c ∈ hs := by
  simp only [endsOf, List.mem_filterMap]
  constructor
  · rintro ⟨e, he, hc⟩
    cases e with
    | replied i c' =>
      by_cases hi : i ∈ own
      · simp only [hi, if_true, Option.some.injEq] at hc
        subst hc
        exact ⟨i, hi, he⟩
      · simp [hi] at hc
    | _ => cases hc
  · rintro ⟨i, hi, he⟩
    exact ⟨_, he, by simp [hi]⟩

theorem endsOf_eq_nil (h : ∀ i ∈ own, ∀ c, .replied i c ∉ hs) : endsOf own hs = [] := by
  refine List.eq_nil_iff_forall_not_mem.mpr fun c hc => ?_
  obtain ⟨i, hi, he⟩ := mem_endsOf.mp hc
  exact h i hi c he

/-- Tasks that a log says nothing of do not matter. -/
theorem endsOf_congr (h : ∀ i c, .replied i c ∈ hs → (i ∈ own ↔ i ∈ own')) :
    endsOf own hs = endsOf own' hs := by
  induction hs with
  | nil => rfl
  | cons e hs ih =>
    have hrest := ih fun i c hc => h i c (List.mem_cons_of_mem _ hc)
    cases e with
    | replied i c =>
      have hi := h i c List.mem_cons_self
      simp only [endsOf, List.filterMap_cons, hi]
      simp only [endsOf] at hrest
      rw [hrest]
    | _ => exact hrest

namespace System

variable {origin sys sys' : System} {i j : Nat} {t : Task} {p : Position} {m : Move}
  {reply : Reply}

theorem reply?_setPosition (h : (sys.setPosition j p).reply? i = some reply) :
    sys.reply? i = some reply ∨ j = i ∧ p = .ended reply := by
  by_cases hji : j = i
  · subst hji
    cases ht : sys.task? j with
    | none => simp [reply?, task?_setPosition, ht] at h
    | some t => exact .inr ⟨rfl, (reply?_eq_some_iff (task?_setPosition_self ht)).mp h⟩
  · rw [reply?, task?_setPosition_of_ne hji] at h
    exact .inl h

theorem reply?_fire : (sys.fire j).reply? i = sys.reply? i := by
  rw [reply?, reply?, task?_fire]
  by_cases hji : j = i
  · rw [if_pos hji]
    rcases sys.task? i with _ | ⟨r, fired, position⟩
    · rfl
    · cases position <;> rfl
  · rw [if_neg hji]

theorem reply?_issue {r : Request} {fired : Bool} :
    (sys.issue r fired).reply? i = sys.reply? i := by
  rw [reply?, reply?, task?_issue]
  by_cases hi : i = sys.tasks.length
  · have hnone : sys.task? i = none := List.getElem?_eq_none (Nat.le_of_eq hi.symm)
    rw [if_pos hi, hnone]
  · rw [if_neg hi]

/-- What a step does to the session, it does by the one ending in its log. -/
theorem ending_of_step (hm : sys.Step m sys') :
    (sys'.state = sys.state ∧ ∀ i c, .replied i c ∉ m.happenings sys sys') ∨
    ∃ i t c, sys.task? i = some t ∧ sys.Replies i t m c ∧ c.after = sys'.state ∧
      m.happenings sys sys' = m.opening sys ++ [.replied i c] := by
  cases step_entry hm with
  | silent hl hs => exact .inl ⟨hs, by simp [hl]⟩
  | cancels ht hf hq => exact .inr ⟨_, _, _, ht, .cancels hf hq, rfl, hq.happenings ht⟩
  | calls ht hc =>
    refine .inl ⟨rfl, fun i c h => ?_⟩
    rw [hc.happenings_call ht] at h
    rcases List.mem_append.mp h with h | h
    · exact replied_not_mem_opening h
    · cases List.mem_singleton.mp h
  | concludes ht hc => exact .inr ⟨_, _, _, ht, .concludes hc, rfl, hc.happenings_conclude ht⟩

/-- No task comes to its end without an entry in the log. -/
theorem replied_of_step (hm : sys.Step m sys') (hr : sys.reply? i = none)
    (hr' : sys'.reply? i = some reply) : ∃ c, .replied i c ∈ m.happenings sys sys' := by
  have moved {j : Nat} {p : Position} (h : (sys.setPosition j p).reply? i = some reply) :
      j = i ∧ p = .ended reply := by
    rcases reply?_setPosition h with h | h
    · cases hr.symm.trans h
    · exact h
  cases step_change hm with
  | issues => cases hr.symm.trans (reply?_issue.symm.trans hr')
  | fires => cases hr.symm.trans (reply?_fire.symm.trans hr')
  | stays => cases hr.symm.trans hr'
  | joins => cases hr.symm.trans hr'
  | drops =>
    obtain ⟨-, hp⟩ := moved (p := .dropped) hr'
    cases hp
  | cancels ht hf hq =>
    obtain ⟨rfl, -⟩ := moved (p := .ended .cancelled) hr'
    exact ⟨_, by rw [hq.happenings ht]; exact List.mem_append_right _ (List.mem_singleton_self _)⟩
  | calls =>
    obtain ⟨-, hp⟩ := moved hr'
    cases hp
  | @concludes j t m f ht hc =>
    obtain ⟨rfl, -⟩ := moved (p := .ended (f sys.state).reply) hr'
    exact ⟨_, by
      rw [hc.happenings_conclude ht]
      exact List.mem_append_right _ (List.mem_singleton_self _)⟩

theorem Replies.request_eq (h : sys.Replies i t m c) : c.request = t.request := by
  cases h <;> rfl

/-- A task that has not come to its end does not in a step, or the step logs its end. -/
theorem ends_step (hm : sys.Step m sys') (ht : sys.task? i = some t) (hr : sys.reply? i = none) :
    (endsOf [i] (m.happenings sys sys') = [] ∧ sys'.reply? i = none) ∨
    ∃ c, endsOf [i] (m.happenings sys sys') = [c] ∧ sys'.reply? i = some c.reply ∧
      c.request = t.request := by
  have unended (h : ∀ c, .replied i c ∉ m.happenings sys sys') :
      endsOf [i] (m.happenings sys sys') = [] ∧ sys'.reply? i = none := by
    refine ⟨endsOf_eq_nil fun j hj c => List.mem_singleton.mp hj ▸ h c, ?_⟩
    cases hr' : sys'.reply? i with
    | none => rfl
    | some reply =>
      obtain ⟨c, hc⟩ := replied_of_step hm hr hr'
      exact absurd hc (h c)
  rcases ending_of_step hm with ⟨-, hsilent⟩ | ⟨j, u, c, hu, hreplies, -, hlog⟩
  · exact .inl (unended (hsilent i))
  · by_cases hji : j = i
    · subst hji
      cases ht.symm.trans hu
      have hends : endsOf [j] (m.happenings sys sys') = [c] := by
        rw [hlog, endsOf_append, endsOf_eq_nil fun _ _ _ => replied_not_mem_opening]
        simp [endsOf]
      have hin : .replied j c ∈ m.happenings sys sys' := by simp [hlog]
      obtain ⟨t', ht', -, hend⟩ := shows_happenings hm _ hin
      exact .inr ⟨c, hends, (reply?_eq_some_iff ht').mpr hend, hreplies.request_eq⟩
    · refine .inl (unended fun c' hc' => ?_)
      rw [hlog] at hc'
      rcases List.mem_append.mp hc' with hc' | hc'
      · exact replied_not_mem_opening hc'
      · cases List.mem_singleton.mp hc'
        exact hji rfl

/-- The log has the end of a task, once, if and only if the task has come to its end. -/
theorem Run.ends (h : sys.Run hs sys') (ht : sys.task? i = some t) (hr : sys.reply? i = none) :
    (endsOf [i] hs = [] ∧ sys'.reply? i = none) ∨
    ∃ c, endsOf [i] hs = [c] ∧ sys'.reply? i = some c.reply ∧ c.request = t.request := by
  induction h with
  | nil => exact .inl ⟨rfl, hr⟩
  | @snoc hs u v m h hm ih =>
    rw [endsOf_append]
    obtain ⟨t', ht', hgo⟩ := h.goesOn ht
    rcases ih with ⟨hnil, hr'⟩ | ⟨c, hone, hr', hc⟩
    · rw [hnil, ← hgo.request]
      exact ends_step hm ht' hr'
    · have hover := (reply?_eq_some_iff ht').mp hr'
      obtain ⟨t'', ht'', hgo'⟩ := goesOn_step hm ht'
      have hsilent : ∀ j ∈ [i], ∀ c, .replied j c ∉ m.happenings u v := by
        rintro j hj c hmem
        obtain rfl := List.mem_singleton.mp hj
        obtain ⟨-, x, hx, hnot⟩ := task_of_happening hm hmem
        cases ht'.symm.trans hx
        exact hnot (hover ▸ trivial)
      refine .inr ⟨c, by rw [hone, endsOf_eq_nil hsilent, List.append_nil], ?_, hc⟩
      refine (reply?_eq_some_iff ht'').mpr ?_
      rw [hgo'.stays (hover ▸ trivial), hover]

/-- Whoever is called off has a token that has fired. -/
theorem Run.fired_of_cancelled (h : origin.Run hs sys) (ho : origin.IsFresh)
    (hc : .replied i c ∈ hs) (hr : c.reply = .cancelled) : sys.hasFired i = true := by
  induction h with
  | nil => cases hc
  | snoc h hm ih =>
    rcases List.mem_append.mp hc with hc | hc
    · exact fired_step hm (ih hc)
    · obtain ⟨t, ht, hreplies⟩ := replies_of_mem hm hc
      cases hreplies with
      | cancels hf => exact fired_step hm (hasFired_eq ht ▸ hf)
      | concludes hcomes =>
        exact absurd hr (reply_of_onCourse (onCourse_of_comes (h.planned ho) ht hcomes))

end System

end LiveEdit
