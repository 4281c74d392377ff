import LiveEdit.Proofs.Session.Record

/-! A log can be cut where a task comes to its plan, and it accounts for all that a run changed. -/
namespace LiveEdit

/-- The task that a happening is about. -/
def Happening.task : Happening → Nat
  | .began i _ _ | .called i _ | .answered i _ | .replied i _ => i

/-- A task comes to its plan, by its turn or by an answer. -/
def Happening.Opens : Happening → Prop
  | .began .. | .answered .. => True
  | .called .. | .replied .. => False

/-- What the world was told when requests came to their ends. -/
def toldBy (hs : List Happening) : List Effect := hs.flatMap fun
  | .replied _ c => c.effects
  | _ => []

/-- The session that the last of a log's endings left. -/
def stateAfter (s : SessionState) (hs : List Happening) : SessionState := hs.foldl (fun s e =>
  match e with
  | .replied _ c => c.after
  | _ => s) s

theorem toldBy_append (a b : List Happening) : toldBy (a ++ b) = toldBy a ++ toldBy b :=
  List.flatMap_append

theorem stateAfter_append (s : SessionState) (a b : List Happening) :
    stateAfter s (a ++ b) = stateAfter (stateAfter s a) b := List.foldl_append

/-- What is not the end of a request tells nothing. -/
theorem toldBy_silent {hs : List Happening} (h : ∀ i c, .replied i c ∉ hs) : toldBy hs = [] := by
  refine List.flatMap_eq_nil_iff.mpr fun e he => ?_
  cases e with
  | replied i c => exact absurd he (h i c)
  | _ => rfl

theorem stateAfter_silent {hs : List Happening} (h : ∀ i c, .replied i c ∉ hs)
    (s : SessionState) : stateAfter s hs = s := by
  induction hs with
  | nil => rfl
  | cons e hs ih =>
    have hrest := ih fun i c hc => h i c (List.mem_cons_of_mem _ hc)
    cases e with
    | replied i c => exact absurd List.mem_cons_self (h i c)
    | _ => exact hrest

/-- An element of two lists joined is in the one or in the other. -/
theorem cut_append {α : Type} {a b earlier later : List α} {e : α}
    (h : a ++ b = earlier ++ e :: later) :
    (∃ l, earlier = a ++ l ∧ b = l ++ e :: later) ∨
      ∃ l, a = earlier ++ e :: l ∧ later = l ++ b := by
  rcases List.append_eq_append_iff.mp h with ⟨l, ha, hb⟩ | ⟨l, ha, hb⟩
  · exact .inl ⟨l, ha, hb⟩
  · cases l with
    | nil => exact .inl ⟨[], by simpa using ha.symm, by simpa using hb.symm⟩
    | cons x l =>
      obtain ⟨rfl, rfl⟩ := List.cons.inj hb
      exact .inr ⟨l, ha, rfl⟩

namespace System

variable {origin sys sys' : System} {i : Nat} {t : Task} {m : Move} {e : Happening}
  {hs hs' earlier later : List Happening}

theorem Run.trans (h : origin.Run hs sys) (h' : sys.Run hs' sys') :
    origin.Run (hs ++ hs') sys' := by
  induction h' with
  | nil => simpa using h
  | snoc _ hm ih => simpa only [← List.append_assoc] using ih.snoc hm

theorem opens_of_opening (h : e ∈ m.opening sys) : e.Opens ∧ m.task? = some e.task := by
  cases m with
  | takeTurn i =>
    simp only [Move.opening, List.mem_map, Option.mem_toList] at h
    obtain ⟨t, -, rfl⟩ := h
    exact ⟨trivial, rfl⟩
  | answer i a =>
    cases List.mem_singleton.mp h
    exact ⟨trivial, rfl⟩
  | _ => simp [Move.opening] at h

theorem mem_arrival (h : e ∈ sys.arrival sys' i) : ¬ e.Opens ∧ e.task = i := by
  rw [arrival] at h
  split at h
  · cases List.mem_singleton.mp h
    exact ⟨id, rfl⟩
  · cases List.mem_singleton.mp h
    exact ⟨id, rfl⟩
  · cases h

theorem opening_length (m : Move) (sys : System) : (m.opening sys).length ≤ 1 := by
  cases m with
  | takeTurn i => cases h : sys.task? i <;> simp [Move.opening, h]
  | _ => simp [Move.opening]

theorem happenings_eq (hi : m.task? = some i) (sys sys' : System) :
    m.happenings sys sys' = [] ∨
      m.happenings sys sys' = m.opening sys ++ sys.arrival sys' i := by
  cases m <;> cases hi <;> simp [Move.happenings]

/-- Something happens only to a task that is not over. -/
theorem task_of_happening (hm : sys.Step m sys') (h : e ∈ m.happenings sys sys') :
    m.task? = some e.task ∧ ∃ t, sys.task? e.task = some t ∧ ¬ t.position.IsOver := by
  have about {i : Nat} (hi : m.task? = some i) : m.task? = some e.task := by
    rcases happenings_eq hi sys sys' with heq | heq
    · simp [heq] at h
    · rw [heq] at h
      rcases List.mem_append.mp h with h | h
      · exact (opens_of_opening h).2
      · rw [(mem_arrival h).2, hi]
  have moved {i : Nat} {t : Task} (hi : m.task? = some i) (ht : sys.task? i = some t)
      (ho : ¬ t.position.IsOver) :
      m.task? = some e.task ∧ ∃ t, sys.task? e.task = some t ∧ ¬ t.position.IsOver := by
    have he := about hi
    cases hi.symm.trans he
    exact ⟨hi, t, ht, ho⟩
  cases step_entry hm with
  | silent hl => simp [hl] at h
  | cancels ht _ hq => exact moved hq.task?_eq ht hq.not_over
  | calls ht hc => exact moved hc.task?_eq ht hc.not_over
  | concludes ht hc => exact moved hc.task?_eq ht hc.not_over

theorem GoesOn.trans {t' t'' : Task} (h : GoesOn t t') (h' : GoesOn t' t'') : GoesOn t t'' where
  request := h'.request.trans h.request
  begun hb := h'.begun (h.begun hb)
  stays ho := by
    have heq := h.stays ho
    exact (h'.stays (heq ▸ ho)).trans heq

theorem Run.goesOn (h : sys.Run hs sys') (ht : sys.task? i = some t) :
    ∃ t', sys'.task? i = some t' ∧ GoesOn t t' := by
  induction h with
  | nil => exact ⟨t, ht, goesOn_refl t⟩
  | snoc _ hm ih =>
    obtain ⟨t', ht', hgo⟩ := ih
    obtain ⟨t'', ht'', hgo'⟩ := goesOn_step hm ht'
    exact ⟨t'', ht'', hgo.trans hgo'⟩

/-- Nothing happens any more to a task that is over. -/
theorem Run.silent (h : sys.Run hs sys') (ht : sys.task? i = some t) (ho : t.position.IsOver) :
    ∀ e ∈ hs, e.task ≠ i := by
  induction h with
  | nil => simp
  | snoc h hm ih =>
    intro e he
    rcases List.mem_append.mp he with he | he
    · exact ih e he
    · rintro rfl
      obtain ⟨t', ht', hgo⟩ := h.goesOn ht
      obtain ⟨-, u, hu, hnot⟩ := task_of_happening hm he
      cases ht'.symm.trans hu
      exact hnot (hgo.stays ho ▸ ho)

/-- A log can be cut where a task comes to its plan. -/
theorem Run.cut (h : origin.Run (earlier ++ e :: later) sys) (he : e.Opens) :
    ∃ u m v rest, origin.Run earlier u ∧ u.Step m v ∧ m.opening u = [e] ∧
      later = u.arrival v e.task ++ rest ∧ v.Run rest sys := by
  generalize hlog : earlier ++ e :: later = hs at h
  induction h generalizing later with
  | nil => simp at hlog
  | @snoc hs u v m h hm ih =>
    rcases cut_append hlog.symm with ⟨l, rfl, hlast⟩ | ⟨l, hinner, rfl⟩
    · have hmem : e ∈ m.happenings u v := by simp [hlast]
      obtain ⟨htask, -⟩ := task_of_happening hm hmem
      have hsplit : m.opening u ++ u.arrival v e.task = l ++ e :: later := by
        rcases happenings_eq htask u v with heq | heq
        · simp [heq] at hmem
        · rw [← heq, hlast]
      -- the arrival opens nothing, so the happening is the one that the move opens with
      rcases cut_append hsplit with ⟨k, rfl, harrival⟩ | ⟨k, hopening, rfl⟩
      · have hin : e ∈ u.arrival v e.task := by simp [harrival]
        exact absurd he (mem_arrival hin).1
      · have hlen := opening_length m u
        rw [hopening] at hlen
        simp only [List.length_append, List.length_cons] at hlen
        obtain rfl : l = [] := List.eq_nil_of_length_eq_zero (by omega)
        obtain rfl : k = [] := List.eq_nil_of_length_eq_zero (by omega)
        exact ⟨u, m, v, [], by simpa using h, hm, hopening, by simp, .nil⟩
    · obtain ⟨u', m', v', rest, hrun, hstep, hopening, rfl, hlater⟩ := ih hinner.symm
      exact ⟨u', m', v', rest ++ m.happenings u v, hrun, hstep, hopening, by simp, hlater.snoc hm⟩

/-- Where a log has an answer, a task in a call went on with it. -/
theorem Run.cut_answer {a : Answered} (h : origin.Run (earlier ++ .answered i a :: later) sys) :
    ∃ u t d resume rest, origin.Run earlier u ∧ u.task? i = some t ∧
      t.position = .inCall d a.call resume ∧
      later = u.arrival (u.arrive i (resume a.result)) i ++ rest ∧
      (u.arrive i (resume a.result)).Run rest sys := by
  obtain ⟨u, m, v, rest, hrun, hm, hopening, rfl, hrest⟩ := h.cut trivial
  cases m with
  | answer j b =>
    simp only [Move.opening, List.cons.injEq, Happening.answered.injEq, and_true] at hopening
    obtain ⟨rfl, rfl⟩ := hopening
    cases hm with
    | arrive ht hc =>
      cases hc with
      | answer hp => exact ⟨u, _, _, _, rest, hrun, ht, hp, rfl, hrest⟩
  | takeTurn j => cases hu : u.task? j <;> simp [Move.opening, hu] at hopening
  | _ => simp [Move.opening] at hopening

/-- Where a log has a turn, a task that waited came to the plan for the session as it was. -/
theorem Run.cut_turn {r : Request} {found : SessionState}
    (h : origin.Run (earlier ++ .began i r found :: later) sys) :
    ∃ u t rest, origin.Run earlier u ∧ u.task? i = some t ∧ t.request = r ∧
      t.position = .waiting ∧ found = u.state ∧
      later = u.arrival (u.arrive i (u.planOf r)) i ++ rest ∧
      (u.arrive i (u.planOf r)).Run rest sys := by
  obtain ⟨u, m, v, rest, hrun, hm, hopening, rfl, hrest⟩ := h.cut trivial
  cases m with
  | takeTurn j =>
    cases hm with
    | arrive ht hc =>
      cases hc with
      | turn hw =>
        simp only [Move.opening, ht, Option.toList_some, List.map_cons, List.map_nil,
          List.cons.injEq, Happening.began.injEq, and_true] at hopening
        obtain ⟨rfl, rfl, rfl⟩ := hopening
        exact ⟨u, _, rest, hrun, ht, rfl, hw, rfl, rfl, hrest⟩
  | answer j b => simp [Move.opening] at hopening
  | _ => simp [Move.opening] at hopening

theorem arrival_length (sys sys' : System) (i : Nat) : (sys.arrival sys' i).length ≤ 1 := by
  rw [arrival]
  split <;> simp

/-- Where a log has a reply, a task came to its end, right after what its move opened with. -/
theorem Run.cut_reply {c : Completion} (h : origin.Run (earlier ++ .replied i c :: later) sys) :
    ∃ before u m t, earlier = before ++ m.opening u ∧ origin.Run before u ∧
      u.task? i = some t ∧ u.Replies i t m c := by
  generalize hlog : earlier ++ .replied i c :: later = hs at h
  induction h generalizing later with
  | nil => simp at hlog
  | @snoc hs u v m h hm ih =>
    rcases cut_append hlog.symm with ⟨l, rfl, hlast⟩ | ⟨l, hinner, -⟩
    · have hmem : .replied i c ∈ m.happenings u v := by simp [hlast]
      obtain ⟨htask, -⟩ := task_of_happening hm hmem
      obtain ⟨t, ht, hr⟩ := replies_of_mem hm hmem
      have hsplit : m.opening u ++ u.arrival v i = l ++ .replied i c :: later := by
        rcases happenings_eq htask u v with heq | heq
        · simp [heq] at hmem
        · exact heq.symm.trans hlast
      rcases cut_append hsplit with ⟨k, rfl, harrival⟩ | ⟨k, hopening, -⟩
      · have hlen := arrival_length u v i
        rw [harrival] at hlen
        simp only [List.length_append, List.length_cons] at hlen
        obtain rfl : k = [] := List.eq_nil_of_length_eq_zero (by omega)
        exact ⟨hs, u, m, t, by simp, h, ht, hr⟩
      · have hin : .replied i c ∈ m.opening u := by simp [hopening]
        exact absurd hin replied_not_mem_opening
    · exact ih hinner.symm

/-- All that a run wrote and told came with the endings of requests, one after the other. -/
structure Accounted (origin : System) (hs : List Happening) (sys : System) : Prop where
  state : sys.state = stateAfter origin.state hs
  found {earlier later : List Happening} {i : Nat} {c : Completion}
    (h : hs = earlier ++ .replied i c :: later) : c.before = stateAfter origin.state earlier
  history : sys.history = origin.history ++ toldBy hs

/-- A move with no ending writes and tells nothing. -/
theorem Accounted.silent {quiet : List Happening} (h : origin.Accounted hs sys)
    (hq : ∀ i c, .replied i c ∉ quiet) (hs' : sys'.state = sys.state)
    (hh : sys'.history = sys.history) : origin.Accounted (hs ++ quiet) sys' := by
  refine ⟨?_, ?_, ?_⟩
  · rw [stateAfter_append, stateAfter_silent hq, hs', h.state]
  · intro earlier later i c heq
    rcases cut_append heq with ⟨l, -, hlast⟩ | ⟨l, hinner, -⟩
    · exact absurd (by simp [hlast]) (hq i c)
    · exact h.found hinner
  · rw [toldBy_append, toldBy_silent hq, List.append_nil, hh, h.history]

theorem Accounted.ending {c : Completion} (h : origin.Accounted hs sys)
    (hb : c.before = sys.state) (hs' : sys'.state = c.after)
    (hh : sys'.history = sys.history ++ c.effects) :
    origin.Accounted (hs ++ [.replied i c]) sys' := by
  refine ⟨?_, ?_, ?_⟩
  · rw [stateAfter_append, hs']
    rfl
  · intro earlier later j c' heq
    rcases cut_append heq with ⟨l, rfl, hlast⟩ | ⟨l, hinner, -⟩
    · rcases List.cons_eq_append_iff.mp hlast with ⟨rfl, htail⟩ | ⟨k, rfl, htail⟩
      · obtain ⟨heq', -⟩ := List.cons.inj htail
        cases heq'
        rw [List.append_nil, hb, h.state]
      · simp at htail
    · exact h.found hinner
  · rw [toldBy_append, hh, h.history, List.append_assoc]
    simp [toldBy]

theorem Run.accounted (h : origin.Run hs sys) : origin.Accounted hs sys := by
  have opened {m : Move} {sys : System} : ∀ i c, .replied i c ∉ m.opening sys :=
    fun _ _ => replied_not_mem_opening
  induction h with
  | nil => exact ⟨rfl, by simp, by simp [toldBy]⟩
  | @snoc hs u v m h hm ih =>
    cases step_entry hm with
    | silent hl hs hh => exact ih.silent (by simp [hl]) hs hh
    | cancels ht _ hq =>
      rw [hq.happenings ht, ← List.append_assoc]
      exact (ih.silent opened rfl rfl).ending rfl rfl (by simp [leave, setPosition])
    | calls ht hc =>
      rw [hc.happenings_call ht]
      refine ih.silent (fun i c hmem => ?_) rfl rfl
      rcases List.mem_append.mp hmem with hmem | hmem
      · exact opened i c hmem
      · simp at hmem
    | concludes ht hc =>
      rw [hc.happenings_conclude ht, ← List.append_assoc]
      exact (ih.silent opened rfl rfl).ending rfl rfl rfl

end System

end LiveEdit
