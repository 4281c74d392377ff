import LiveEdit.Proofs.Session.Traced

/-! A session has no snapshots but those that the provider answered with. -/
namespace LiveEdit

/-- The session's snapshots, the committed and the pending one, are among those of a kind. -/
def SessionState.Has (P : Snapshot → Prop) (s : SessionState) : Prop :=
  ∀ session, s = .active session → P session.committed ∧ ∀ p, session.pending = some p → P p

/-- The provider answered with the snapshot. -/
def Provided (hs : List Happening) (p : Snapshot) : Prop :=
  ∃ i, .answered i ⟨.currentSnapshot, .ok p⟩ ∈ hs

variable {P Q : Snapshot → Prop} {s : SessionState} {r : Request} {a : Answered} {c : Conclusion}

theorem SessionState.Has.mono (h : s.Has P) (hPQ : ∀ p, P p → Q p) : s.Has Q := by
  intro session hs
  obtain ⟨hcommitted, hpending⟩ := h session hs
  exact ⟨hPQ _ hcommitted, fun p hp => hPQ p (hpending p hp)⟩

/-- A request's success brings in no snapshot but the one that its call is about. -/
theorem Success.has (h : Success s r a c) (hs : s.Has P)
    (ht : ∀ p, a.call.target? = some p → P p) : c.state.Has P := by
  have active {session : ActiveSession} (hc : c.state = .active session)
      (hcommitted : P session.committed) (hpending : ∀ p, session.pending = some p → P p) :
      c.state.Has P := by
    intro session' hs'
    cases hc.symm.trans hs'
    exact ⟨hcommitted, hpending⟩
  cases h with
  | starts baseline _ _ _ _ hc => exact active hc (ht baseline rfl) (by simp)
  | breaks _ hs' _ hc =>
    obtain ⟨hcommitted, hpending⟩ := hs _ hs'
    exact active hc hcommitted hpending
  | computes latest update hs' _ hc =>
    by_cases hready : update.status = .ready
    · rw [if_pos hready] at hc
      refine active hc (hs _ hs').1 ?_
      rintro _ ⟨⟩
      exact ht latest rfl
    · rw [if_neg hready] at hc
      exact hc ▸ hs
  | commits hs' hp _ hc => exact active hc ((hs _ hs').2 _ hp) (by simp)
  | discards hs' _ _ hc => exact active hc (hs _ hs').1 (by simp)
  | finishes _ _ hc =>
    rw [hc]
    exact nofun

namespace System

variable {origin sys sys' : System} {i : Nat} {t : Task} {m : Move} {hs : List Happening}

theorem has_conclude {f : SessionState → Conclusion} (hp : sys.Planned) (hf : Fetched hs sys)
    (ht : sys.task? i = some t) (hc : sys.Comes i t m (.conclude f))
    (h : sys.state.Has (Provided hs)) : (f sys.state).state.Has (Provided hs) := by
  cases hg : t.request.takesGate with
  | false =>
    obtain ⟨hs', -⟩ := state_of_no_gate (onCourse_of_comes hp ht hc) hg sys.state
    rw [hs']
    exact h
  | true =>
    obtain ⟨rfl, -, hplan⟩ | ⟨d, call, resume, result, rfl, hin, hend⟩ := hc.inv
    · rcases conclude_of_turn hg hplan with ⟨reply, -, rfl⟩ | ⟨v, -, -, -, hd⟩
      · exact h
      · cases hd
        exact nofun
    · have hcall := (hp ht hin).awaiting hg
      cases result with
      | ok x => exact (hcall.success hend).has h fun p hp => ⟨i, hf ht hin hp⟩
      | error fault =>
        rw [hcall.disables hend]
        exact nofun

theorem has_step (hm : sys.Step m sys') (hp : sys.Planned) (hf : Fetched hs sys)
    (h : sys.state.Has (Provided hs)) :
    sys'.state.Has (Provided (hs ++ m.happenings sys sys')) := by
  have hlog {s : SessionState} (h : s.Has (Provided hs)) :
      s.Has (Provided (hs ++ m.happenings sys sys')) :=
    h.mono fun _ ⟨i, hi⟩ => ⟨i, List.mem_append_left _ hi⟩
  cases step_entry hm with
  | silent _ hs' => exact hs' ▸ hlog h
  | cancels => exact hlog h
  | calls => exact hlog h
  | concludes ht hc => exact hlog (has_conclude hp hf ht hc h)

/-- In every run the session's snapshots are ones that the provider answered with. -/
theorem Run.has (h : origin.Run hs sys) (ho : origin.IsFresh) (hn : origin.state = .noSession) :
    sys.state.Has (Provided hs) := by
  induction h with
  | nil =>
    rw [hn]
    exact nofun
  | snoc h hm ih => exact has_step hm (h.planned ho) (h.fetched ho) ih

end System

end LiveEdit
