import LiveEdit.Proofs.Kernel.Serving
import LiveEdit.Proofs.Source.Changes

/-! A process that applies what it is told to apply runs the committed snapshot. -/
namespace LiveEdit.Kernel

/-- The documents that an edit brings into the store. -/
def StoreEdit.documents : StoreEdit → List Document
  | .upsert d => [d]
  | .replaceAll documents => documents.toList
  | .remove _ | .clear => []

/-- The units of a running process, and the deltas of the last ready update. -/
structure Process where
  units : Units := fun _ => none
  ready : List Delta := []

/-- What becomes of a process at the end of a request. -/
def Process.note (p : Process) (c : Completion) : Process :=
  match c.request, c.reply, c.before, c.after with
  | .start, .done, .noSession, .active session =>
    { p with units := session.committed.documents.units }
  | .getUpdates, .updates u, _, _ => if u.status = .ready then { p with ready := u.deltas } else p
  | .commit, .done, _, _ => { p with units := p.units.patched p.ready }
  | _, _, _, _ => p

def Within (known : String → Prop) (documents : DocumentSet) : Prop :=
  ∀ d ∈ documents.toList, known d.content

/-- The process has the committed units, and the deltas that lead from them to the pending ones. -/
structure Tracks (known : String → Prop) (b : Bool) (p : Process) (s : SessionState)
    (c : Collaborators) : Prop where
  agrees : Agrees b c.engine s
  current : Within known c.store.current.documents
  committed {session : ActiveSession} (hs : s = .active session) :
    Within known session.committed.documents ∧ p.units = session.committed.documents.units
  pending {session : ActiveSession} {pending : Snapshot} (hs : s = .active session)
    (hp : session.pending = some pending) :
    Within known pending.documents ∧ p.units.patched p.ready = pending.documents.units

def imaging (known : String → Prop) (b : Bool) : Ledger Process where
  note := Process.note
  Holds := Tracks known b

variable {known : String → Prop} {b : Bool} {p : Process} {s : SessionState}
  {c c' : Collaborators} {r : Request} {k : Conclusion} {store : Store} {d : Document}
  {origin w : World} {es : List StoreEdit} {hs : List Happening}

theorem within_insert {documents : DocumentSet} (h : Within known documents)
    (hd : known d.content) : Within known (documents.insert d) := by
  intro e he
  rcases mem_insertByPath he with rfl | he
  · exact hd
  · exact h e he

theorem within_erase {documents : DocumentSet} (h : Within known documents) (path : SourcePath) :
    Within known (documents.erase path) := fun e he =>
  h e (List.mem_filter.mp he).1

theorem within_apply {e : StoreEdit} (h : Within known store.current.documents)
    (he : ∀ d ∈ e.documents, known d.content) :
    Within known (e.apply store).current.documents := by
  rw [store.in_step] at h
  rw [Store.in_step]
  cases e with
  | upsert d =>
    have hd := he d List.mem_cons_self
    simp only [StoreEdit.apply, Store.upsert, Store.upserting]
    split
    · split
      · exact h
      · exact within_insert h hd
    · exact within_insert h hd
  | remove path =>
    simp only [StoreEdit.apply, Store.remove, Store.removing]
    split
    · exact within_erase h path
    · exact h
  | replaceAll documents =>
    simp only [StoreEdit.apply, Store.replaceAll, Store.replacing]
    split
    · exact h
    · exact he
  | clear => exact h

/-- Without a session nothing is asked of a process. -/
theorem tracks_of_inactive (ha : Agrees b c.engine s) (hc : Within known c.store.current.documents)
    (hs : s.session? = none) : Tracks known b p s c where
  agrees := ha
  current := hc
  committed := by
    rintro session rfl
    cases hs
  pending := by
    rintro session pending rfl
    cases hs

theorem tracks_of_active {session : ActiveSession} (ha : Agrees b c.engine s)
    (hcurrent : Within known c.store.current.documents) (hs : s = .active session)
    (hc : Within known session.committed.documents ∧ p.units = session.committed.documents.units)
    (hp : ∀ pending, session.pending = some pending → Within known pending.documents ∧
      p.units.patched p.ready = pending.documents.units) : Tracks known b p s c where
  agrees := ha
  current := hcurrent
  committed hs' := by
    cases hs.symm.trans hs'
    exact hc
  pending hs' hpending := by
    cases hs.symm.trans hs'
    exact hp _ hpending

theorem within_of_fetched {snapshot : Snapshot} (h : (imaging known b).Fetched p s snapshot) :
    Within known snapshot.documents := by
  obtain ⟨c, hc, rfl⟩ := h
  exact hc.current

/-- What leaves the coordinator idle leaves the process as it is, or nothing is asked of it. -/
theorem note_of_idle {reply : Reply} (h : r.idleReply? s = some reply) :
    p.note ⟨r, reply, s, s, []⟩ = p ∨ s.session? = none := by
  cases s with
  | active session =>
    left
    cases r <;> simp [Request.idleReply?, SessionState.session?, SessionState.isDisabled] at h
    subst h
    rfl
  | _ => exact .inr rfl

theorem note_of_break {inBreak : Option Bool} (hb : r.break? = some inBreak) (reply : Reply)
    (before after : SessionState) (effects : List Effect) :
    p.note ⟨r, reply, before, after, effects⟩ = p := by
  cases r <;> first | rfl | cases hb

/-- A ready update leads from the committed units to those of the snapshot it is for. -/
theorem tracks_ready {session : ActiveSession} {latest : Snapshot} {marker : Option String}
    (hK : ∀ x y, known x → known y → Digest.ofText x = Digest.ofText y → x = y)
    (h : Tracks known b p (.active session) c) (hf : Within known latest.documents)
    (hr : (updateOf marker b
      (session.committed.documents.changesTo latest.documents)).status = .ready) :
    p.units.patched
        (updateOf marker b (session.committed.documents.changesTo latest.documents)).deltas =
      latest.documents.units := by
  obtain ⟨hremoved, hdeltas⟩ := updateOf_ready hr
  obtain ⟨hcommitted, hunits⟩ := h.committed rfl
  rw [hdeltas, hunits]
  exact patched_changesTo (fun e he d hd => hK _ _ (hcommitted e he) (hf d hd)) hremoved

theorem tracks_served (hK : ∀ x y, known x → known y → Digest.ofText x = Digest.ofText y → x = y)
    {marker : Option String} (h : Tracks known b p s c)
    (hk : Served b ((imaging known b).Fetched p s) marker s r k) (hc : Follows b c c' k.state) :
    Tracks known b (p.note ⟨r, k.reply, s, k.state, k.effects⟩) k.state c' := by
  have hcurrent : Within known c'.store.current.documents := hc.store ▸ h.current
  have inactive (hs : k.state.session? = none) :
      Tracks known b (p.note ⟨r, k.reply, s, k.state, k.effects⟩) k.state c' :=
    tracks_of_inactive hc.agrees hcurrent hs
  have active {session : ActiveSession} (hs : k.state = .active session) :=
    tracks_of_active (p := p.note ⟨r, k.reply, s, k.state, k.effects⟩) hc.agrees hcurrent hs
  cases hk with
  | @idle r reply hidle =>
    rcases note_of_idle (p := p) hidle with hn | hs
    · have hsame : Tracks known b (p.note ⟨r, reply, s, s, []⟩) s c' := by
        rw [hn]
        exact ⟨hc.agrees, hcurrent, h.committed, h.pending⟩
      exact hsame
    · exact inactive hs
  | violates _ _ _ hd =>
    refine inactive ?_
    cases hs : k.state <;> simp_all [SessionState.isDisabled, SessionState.session?]
  | starts baseline id hs hf hr hn =>
    refine active hn ?_ (by simp)
    rw [hs, hr, hn]
    exact ⟨within_of_fetched hf, rfl⟩
  | breaks hb hs hr hn =>
    have hcommitted := h.committed hs
    rw [note_of_break hb] at active ⊢
    exact active hn hcommitted fun _ hp => h.pending hs hp
  | @computes session k latest update hs hf hu hr hn =>
    have hfetched : Within known latest.documents := within_of_fetched hf
    have hnote : p.note ⟨.getUpdates, k.reply, s, k.state, k.effects⟩ =
        if update.status = .ready then { p with ready := update.deltas } else p := by
      rw [hr]
      rfl
    rw [hnote] at active ⊢
    by_cases hready : update.status = .ready
    · rw [if_pos hready] at hn active ⊢
      subst hs hu
      have hcommitted := h.committed rfl
      have hpatched := tracks_ready hK h hfetched hready
      refine active hn hcommitted ?_
      rintro _ ⟨⟩
      exact ⟨hfetched, hpatched⟩
    · rw [if_neg hready] at hn active ⊢
      exact active hn (h.committed hs) fun _ hp => h.pending hs hp
  | commits hs hp hr hn =>
    refine active hn ?_ (by simp)
    rw [hr]
    exact h.pending hs hp
  | discards hs hr hn =>
    have hcommitted := h.committed hs
    exact active hn hcommitted (by simp)
  | finishes hs hr hn => exact inactive (by rw [hn]; rfl)

theorem imaging_kept (hK : ∀ x y, known x → known y → Digest.ofText x = Digest.ofText y → x = y) :
    (imaging known b).KeptByServing b where
  agrees h := h.agrees
  served h hk hc := tracks_served hK h hk hc

theorem imaging_sound (settings : SessionSettings)
    (hK : ∀ x y, known x → known y → Digest.ofText x = Digest.ofText y → x = y) :
    (imaging known settings.reportDiagnostics).Sound settings
      fun e => ∀ d ∈ e.documents, known d.content where
  serves hg h := Ledger.keeps_plan (imaging_kept hK) hg h
  edits he h := ⟨h.agrees, within_apply h.current he, h.committed, h.pending⟩
  clears h := ⟨h.agrees, h.current, h.committed, h.pending⟩
  cancelled r g s := by cases r <;> rfl
  checked {r} hg g reply s effects := by
    cases r with
    | hasChanges scope => rfl
    | _ => cases hg

/-- All documents that the store of a run has or is given. -/
def documentsOf (origin : World) (es : List StoreEdit) : List Document :=
  origin.store.current.documents.toList ++ es.flatMap StoreEdit.documents

/-- Whatever happens in between, the process has the units of the committed snapshot. -/
theorem process_has_committed_units (h : origin.Run es hs w) (ho : origin.IsFresh)
    (hc : ∀ d ∈ documentsOf origin es, ∀ e ∈ documentsOf origin es,
      d.checksum = e.checksum → d.content = e.content)
    (p : Process) {session : ActiveSession} (hs' : w.system.state = .active session) :
    ((completionsOf hs).foldl Process.note p).units = session.committed.documents.units := by
  let known (content : String) : Prop := ∃ d ∈ documentsOf origin es, d.content = content
  have hK : ∀ x y, known x → known y → Digest.ofText x = Digest.ofText y → x = y := by
    rintro x y ⟨d, hd, rfl⟩ ⟨e, he, rfl⟩ hsum
    exact hc d hd e he hsum
  have h0 : (imaging known origin.system.settings.reportDiagnostics).Holds p .noSession
      origin.toCollaborators := by
    refine tracks_of_inactive ho.sessions (fun d hd => ?_) rfl
    exact ⟨d, List.mem_append_left _ hd, rfl⟩
  have htracks := (Ledger.sustains_run (imaging_sound _ hK) ho h0 h fun e he d hd =>
    ⟨d, List.mem_append_right _ (List.mem_flatMap.mpr ⟨e, he, hd⟩), rfl⟩).now
  exact (htracks.committed hs').2

theorem process_has_first_document : ∃ es hs w session, World.blank.Run es hs w ∧
    w.system.state = .active session ∧ session.committed.documents.size = 1 ∧
      ((completionsOf hs).foldl Process.note {}).units = session.committed.documents.units := by
  obtain ⟨hs, started⟩ := World.blank_isFresh.starts rfl
  have edited := started.snoc (.edit (.upsert ⟨.ofText "main.src", "app", "one", false⟩))
  obtain ⟨_, begun⟩ := edited.takesTurn .getUpdates rfl rfl rfl rfl
  have provided := begun.snoc (.answer (.arrive (i := 1) rfl (.answer rfl _)))
  have computed := provided.snoc (.answer (.arrive (i := 1) rfl (.answer rfl _)))
  obtain ⟨_, begun⟩ := computed.takesTurn .commit rfl rfl rfl rfl
  have committed := begun.snoc (.answer (.arrive (i := 2) rfl (.answer rfl _)))
  have hunits := process_has_committed_units committed World.blank_isFresh ?_ {} rfl
  · exact ⟨_, _, _, _, committed, rfl, rfl, hunits⟩
  · intro d hd e he _
    rw [List.mem_singleton.mp hd, List.mem_singleton.mp he]

end LiveEdit.Kernel
