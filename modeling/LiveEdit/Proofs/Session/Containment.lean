import LiveEdit.Proofs.Session.Log
import LiveEdit.Proofs.Session.Serial

/-! A call that fails ends the request it served: hot reload is off, and all learn it once. -/
namespace LiveEdit

/-- What goes wrong in the collaborator that a call is made to. -/
abbrev Call.Error : Call → Type
  | .currentSnapshot => ProviderError
  | _ => EngineError

def Call.fault : (call : Call) → call.Error → Fault
  | .currentSnapshot => .provider
  | .startSession _ _ => .engine
  | .reportBreak _ _ => .engine
  | .compute _ _ _ => .engine
  | .commit _ => .engine
  | .discard _ => .engine
  | .closeSession _ => .engine

def Effect.report? : Effect → Option (Operation × Fault)
  | .report operation fault => some (operation, fault)
  | _ => none

def reportsOf (effects : List Effect) : List (Operation × Fault) :=
  effects.filterMap Effect.report?

/-- All that is left of a request that met a fault: no session, and each of the five told once. -/
structure Completion.Contains (c : Completion) (fault : Fault) : Prop where
  state : c.after = .disabled ⟨c.request.operation, fault.message⟩
  status : c.after.status =
    { phase := .disabled, breakState := none, committed := none, pendingVersion := none
      disableReason := some ⟨c.request.operation, fault.message⟩ }
  reports : reportsOf c.effects = [(c.request.operation, fault)]
  releases : c.effects.count .release = 1
  events : eventsOf c.effects = [.disabled c.request.operation fault.message]
  audits : auditsOf c.effects = [.sessionDisabled c.request.operation.text fault.message]

/-- The caller never sees the fault as an error. -/
structure Completion.Hides (c : Completion) (call : Call) (fault : Fault) : Prop where
  done (h : c.request ≠ .getUpdates) : c.reply = .done
  empty (h : c.request = .getUpdates) (hcall : call.asksEngine = false) :
    c.reply = .updates { status := .ready, deltas := [], diagnostics := [] }
  restart (h : c.request = .getUpdates) (hcall : call.asksEngine = true) : ∃ d,
    c.reply = .updates { status := .restartRequired, deltas := [], diagnostics := [d] } ∧
      d.id = "HR0001" ∧ ∃ before after, d.message = before ++ fault.message ++ after

section disable

variable {r : Request} {fault : Fault} {reply : Reply} {extra : List Effect} {s : SessionState}
  {f : SessionState → Conclusion}

theorem contains_of_disable (h : Plan.disable r.operation fault reply extra = .conclude f)
    (hextra : ∀ e ∈ extra, ∃ counter, e = .count counter) :
    Completion.Contains ⟨r, (f s).reply, s, (f s).state, (f s).effects⟩ fault := by
  have none_of {α : Type} {g : Effect → Option α} (hg : ∀ counter, g (.count counter) = none) :
      extra.filterMap g = [] := by
    refine List.filterMap_eq_nil_iff.mpr fun e he => ?_
    obtain ⟨counter, rfl⟩ := hextra e he
    exact hg counter
  have hrelease : extra.count .release = 0 := by
    refine List.count_eq_zero.mpr fun he => ?_
    obtain ⟨counter, heq⟩ := hextra _ he
    cases heq
  cases h
  refine ⟨rfl, rfl, ?_, ?_, ?_, ?_⟩
  · exact congrArg (_ :: ·) (none_of fun _ => rfl)
  · rw [List.count_append, hrelease]
    rfl
  · exact congrArg (_ :: ·) (none_of fun _ => rfl)
  · exact congrArg (_ :: ·) (none_of fun _ => rfl)

/-- What a request does after a fault contains it, and hides it from the caller. -/
theorem contains_of_afterFault {call : Call} (h : r.afterFault fault call = .conclude f) :
    Completion.Contains ⟨r, (f s).reply, s, (f s).state, (f s).effects⟩ fault := by
  cases r with
  | getUpdates =>
    cases call with
    | currentSnapshot => exact contains_of_disable h (by simp)
    | _ => exact contains_of_disable h (by simp)
  | _ => exact contains_of_disable h (by simp)

theorem hides_of_afterFault {call : Call} (h : r.afterFault fault call = .conclude f) :
    Completion.Hides ⟨r, (f s).reply, s, (f s).state, (f s).effects⟩ call fault := by
  refine ⟨fun hr => ?_, fun hr hcall => ?_, fun hr hcall => ?_⟩
  · cases r with
    | getUpdates => exact absurd rfl hr
    | _ =>
      cases h
      rfl
  · subst hr
    cases call with
    | currentSnapshot =>
      cases h
      rfl
    | _ => cases hcall
  · subst hr
    have hmessage : ∃ before after,
        (internalErrorDiagnostic fault.message).message = before ++ fault.message ++ after :=
      ⟨_, "", by rw [message_internalErrorDiagnostic, String.append_empty]⟩
    cases call with
    | currentSnapshot => cases hcall
    | _ =>
      cases h
      exact ⟨_, rfl, rfl, hmessage⟩

end disable

namespace System

variable {origin sys : System} {i : Nat} {t : Task} {call : Call} {fault : Fault}
  {earlier later : List Happening}

/-- A request with the gate that meets a fault is at its end, and contains it. -/
theorem Run.contained {result : Except Fault call.Answer}
    (h : origin.Run (earlier ++ .answered i ⟨call, result⟩ :: later) sys) (ho : origin.IsFresh)
    (hf : result = .error fault) (ht : sys.task? i = some t) (hg : t.request.takesGate = true) :
    ∃ c rest, later = .replied i c :: rest ∧ c.request = t.request ∧ c.Contains fault ∧
      c.Hides call fault ∧ (∀ c', .replied i c' ∉ earlier) ∧ ∀ e ∈ rest, e.task ≠ i := by
  subst hf
  obtain ⟨u, t', d, resume, rest, hrun, ht', hp, rfl, hrest⟩ := h.cut_answer
  have hstep := Step.arrive ht' (.answer hp (.error fault))
  obtain ⟨v, hv, hgo⟩ := goesOn_step hstep ht'
  obtain ⟨v', hv', hgo'⟩ := hrest.goesOn hv
  cases ht.symm.trans hv'
  have hreq : t'.request = t.request := (hgo.trans hgo').request.symm
  have hcall := (hrun.planned ho ht' hp).awaiting (hreq ▸ hg)
  obtain ⟨f, hend⟩ := conclude_of_afterFault t'.request fault call
  rw [hcall.fault fault, hend] at hrest ⊢
  have hover : (u.conclude i (f u.state)).task? i =
      some { t' with position := .ended (f u.state).reply } := task?_setPosition_self ht'
  refine ⟨_, rest, congrArg (· ++ rest) (arrival_conclude ht'), hreq, ?_, ?_, ?_, ?_⟩
  · exact contains_of_afterFault hend
  · exact hides_of_afterFault hend
  · intro c' hc'
    obtain ⟨w, hw, -, hend⟩ := hrun.shows _ hc'
    cases ht'.symm.trans hw
    cases hp.symm.trans hend
  · exact hrest.silent hover trivial

end System

end LiveEdit
