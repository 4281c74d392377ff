import LiveEdit.Proofs.Kernel.Serving

/-! The coordinator and its engine never disagree, and only a violation turns hot reload off. -/
namespace LiveEdit.Kernel

/-- A commit or a discard was refused. -/
def refuses (c : Completion) : Bool :=
  match c.request, c.reply with
  | .commit, .violation _ | .discard, .violation _ => true
  | _, _ => false

/-- Whether a request was refused so far, and the agreement of the coordinator and its engine. -/
def agreement (b : Bool) : Ledger Bool where
  note refused c := refused || refuses c
  Holds refused s c := Agrees b c.engine s ∧ s.isDisabled = refused

variable {b refused : Bool} {fetched : Snapshot → Prop} {marker : Option String}
  {s : SessionState} {r : Request} {k : Conclusion} {origin w : World} {es : List StoreEdit}
  {hs : List Happening}

@[simp] theorem note_agreement (c : Completion) :
    (agreement b).note refused c = (refused || refuses c) := rfl

theorem refuses_iff {c : Completion} : refuses c = true ↔
    (c.request = .commit ∨ c.request = .discard) ∧ ∃ v, c.reply = .violation v := by
  obtain ⟨request, reply, before, after, effects⟩ := c
  cases request <;> cases reply <;> simp [refuses]

theorem refuses_of_ne {c : Completion} (h : ∀ v, c.reply ≠ .violation v) : refuses c = false := by
  rw [Bool.eq_false_iff, Ne, refuses_iff]
  rintro ⟨-, v, hv⟩
  exact h v hv

theorem idleReply?_ne {reply : Reply} (h : r.idleReply? s = some reply) (v : Violation) :
    reply ≠ .violation v := by
  rintro rfl
  cases r <;> simp [Request.idleReply?] at h

/-- A service that is no refusal leaves hot reload on, or off, as it was. -/
theorem isDisabled_of_served (h : Served b fetched marker s r k) {c : Completion}
    (hr : c.request = r) (hc : c.reply = k.reply) :
    k.state.isDisabled = (s.isDisabled || refuses c) := by
  have quiet (hs : k.state.isDisabled = s.isDisabled) (hk : ∀ v, k.reply ≠ .violation v) :
      k.state.isDisabled = (s.isDisabled || refuses c) := by
    rw [hs, refuses_of_ne fun v => hc ▸ hk v, Bool.or_false]
  cases h with
  | idle h => exact quiet rfl (idleReply?_ne h)
  | @violates r v k hv hs hk hd =>
    have hrefuse : refuses c = true := by
      refine refuses_iff.mpr ⟨?_, v, hc.trans hk⟩
      cases r <;> simp_all [Request.violation?]
    rw [hd, hrefuse, Bool.or_true]
  | starts _ _ hs _ hk hn => exact quiet (by rw [hs, hn]; rfl) (by simp [hk])
  | breaks _ hs hk hn => exact quiet (by rw [hs, hn]; rfl) (by simp [hk])
  | computes _ _ hs _ _ hk hn => exact quiet (by rw [hs, hn]; split <;> rfl) (by simp [hk])
  | commits hs _ hk hn => exact quiet (by rw [hs, hn]; rfl) (by simp [hk])
  | discards hs hk hn => exact quiet (by rw [hs, hn]; rfl) (by simp [hk])
  | finishes hs hk hn => exact quiet (by rw [hs, hn]; rfl) (by simp [hk])

theorem agreement_kept (b : Bool) : (agreement b).KeptByServing b where
  agrees h := h.1
  served h hk hc := ⟨hc.agrees, h.2 ▸ isDisabled_of_served hk rfl rfl⟩

theorem agreement_sound (settings : SessionSettings) :
    (agreement settings.reportDiagnostics).Sound settings fun _ => True where
  serves hg h := Ledger.keeps_plan (agreement_kept _) hg h
  edits _ h := h
  clears h := h
  cancelled r g s := by simp [refuses_of_ne]
  checked {r} hg g reply s effects := by
    cases r with
    | hasChanges scope => simp [refuses]
    | _ => cases hg

theorem noted_agreement : (agreement b).noted refused hs = true ↔
    refused = true ∨ ∃ i c, .replied i c ∈ hs ∧ refuses c = true := by
  have hfold (cs : List Completion) (refused : Bool) :
      cs.foldl (agreement b).note refused = true ↔
        refused = true ∨ ∃ c ∈ cs, refuses c = true := by
    induction cs generalizing refused with
    | nil => simp
    | cons c cs ih => simp [ih, or_assoc]
  rw [Ledger.noted, hfold]
  constructor
  · rintro (h | ⟨c, hc, hr⟩)
    · exact .inl h
    · obtain ⟨i, hi⟩ := Ledger.mem_completionsOf.mp hc
      exact .inr ⟨i, c, hi, hr⟩
  · rintro (h | ⟨i, c, hi, hr⟩)
    · exact .inl h
    · exact .inr ⟨c, Ledger.mem_completionsOf.mpr ⟨i, hi⟩, hr⟩

/-- In every reachable state the engine has the coordinator's session and no other. -/
theorem coordinator_agrees_with_engine (h : origin.Run es hs w) (ho : origin.IsFresh) :
    (∀ session, w.system.state = .active session → ∃ e, w.engine.sessions = [e] ∧
      e.id = session.engine ∧ e.baseline = session.committed.version ∧
      e.tentative = session.pending.map (·.version) ∧ e.inBreak = reported? session.breakState) ∧
    (w.system.state = .noSession → w.engine.sessions = []) ∧
    (∀ reason, w.system.state = .disabled reason → w.engine.sessions.length ≤ 1) ∧
    (∀ i a, .answered i a ∈ hs → ∃ x, a.result = .ok x) ∧
    (w.system.state.isDisabled = true ↔ ∃ i c v, .replied i c ∈ hs ∧
      (c.request = .commit ∨ c.request = .discard) ∧ c.reply = .violation v) := by
  have hL := agreement_sound origin.system.settings
  have h0 : (agreement origin.system.settings.reportDiagnostics).Holds false .noSession
    origin.toCollaborators := ⟨ho.sessions, rfl⟩
  obtain ⟨hagree, hdisabled⟩ := (Ledger.sustains_run hL ho h0 h fun _ _ => trivial).now
  refine ⟨fun session hs => ?_, fun hs => ?_, fun reason hs => ?_, fun i a ha => ?_, ?_⟩
  · rw [hs] at hagree
    exact ⟨_, hagree, rfl, rfl, rfl, rfl⟩
  · rw [hs] at hagree
    exact hagree
  · rw [hs] at hagree
    exact hagree
  · exact Ledger.answered_ok hL ho h0 h (fun _ _ => trivial) ha
  · rw [hdisabled, noted_agreement]
    simp [refuses_iff]

theorem coordinator_agrees_after_start : ∃ es hs w session,
    World.blank.Run es hs w ∧ w.system.state = .active session ∧
      ∃ e, w.engine.sessions = [e] ∧ e.id = session.engine ∧ e.tentative = none := by
  obtain ⟨hs, started⟩ := World.blank_isFresh.starts rfl
  have edited := started.snoc (.edit (.upsert ⟨.ofText "main.src", "app", "one", false⟩))
  obtain ⟨e, he, hid, -, ht, -⟩ :=
    (coordinator_agrees_with_engine edited World.blank_isFresh).1 _ rfl
  exact ⟨_, _, _, _, edited, rfl, e, he, hid, ht⟩

end LiveEdit.Kernel
