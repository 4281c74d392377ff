import LiveEdit.Proofs.Diagnostic.Report
import LiveEdit.Proofs.Kernel.Service
import LiveEdit.Session.Bridge

/-! Updates depend on the committed and the current documents alone, so they can be had again. -/
namespace LiveEdit

variable {marker : Option String} {b : Bool} {committed committed' latest latest' : Snapshot}

/-- No version and no identity of a snapshot shows in the updates. -/
theorem updatesBetween_congr (hc : committed.documents = committed'.documents)
    (hl : latest.documents = latest'.documents) :
    updatesBetween marker b committed latest = updatesBetween marker b committed' latest' := by
  have hreport (u : Update) : u.report latest = u.report latest' :=
    Update.report_congr fun p _ => by rw [hl]
  simp only [updatesBetween, hc, hl, hreport]

/-- Where nothing changed there is nothing to tell, whatever the documents contain. -/
theorem updatesBetween_of_same (h : committed.documents = latest.documents) :
    updatesBetween marker b committed latest = {} := by
  rw [updatesBetween, h, DocumentSet.changesTo_self, updateOf_nil]
  rfl

namespace Kernel

/-- The last ready update, once a request has ended. -/
def noteReady (last : Option Updates) (c : Completion) : Option Updates :=
  match c.request, c.reply with
  | .getUpdates, .updates u => if u.status = .ready then some u else last
  | _, _ => last

/-- The last ready update that a log tells of. -/
def lastReady (hs : List Happening) : Option Updates := (completionsOf hs).foldl noteReady none

/-- What is pending is what the last ready update was for. -/
structure Recalls (marker : Option String) (b : Bool) (last : Option Updates) (s : SessionState)
    (c : Collaborators) : Prop where
  agrees : Agrees b c.engine s
  last {session : ActiveSession} {pending : Snapshot} (hs : s = .active session)
    (hp : session.pending = some pending) :
    last = some (updatesBetween marker b session.committed pending)
  marker : c.engine.marker = marker

def recalling (marker : Option String) (b : Bool) : Ledger (Option Updates) where
  note := noteReady
  Holds := Recalls marker b

variable {last : Option Updates} {s : SessionState} {c c' : Collaborators} {r : Request}
  {k : Conclusion} {fetched : Snapshot → Prop} {origin w : World} {es : List StoreEdit}
  {hs : List Happening} {session : ActiveSession} {pending : Snapshot}

theorem noteReady_of_ne {c : Completion} (h : ∀ u, c.reply ≠ .updates u) :
    noteReady last c = last := by
  unfold noteReady
  split
  next hr => exact absurd hr (h _)
  next => rfl

theorem recalls_served (h : Recalls marker b last s c) (hk : Served b fetched marker s r k)
    (hc : Follows b c c' k.state) :
    Recalls marker b (noteReady last ⟨r, k.reply, s, k.state, k.effects⟩) k.state c' := by
  refine ⟨hc.agrees, ?_, hc.marker.trans h.marker⟩
  have settled {session : ActiveSession} (hs : k.state = .active session)
      (hp : session.pending = none) {session' : ActiveSession} {pending : Snapshot}
      (hs' : k.state = .active session') (hp' : session'.pending = some pending) : False := by
    cases hs.symm.trans hs'
    cases hp.symm.trans hp'
  intro session' pending hs' hp'
  cases hk with
  | @idle r reply hidle =>
    subst hs'
    have hne : ∀ u, reply ≠ .updates u := by
      rintro u rfl
      cases r <;> simp [Request.idleReply?, SessionState.session?] at hidle
    rw [noteReady_of_ne hne]
    exact h.last rfl hp'
  | violates _ _ _ hd =>
    rw [hs'] at hd
    cases hd
  | starts _ _ _ _ _ hn => exact (settled hn rfl hs' hp').elim
  | breaks _ hs hr hn =>
    cases hn.symm.trans hs'
    rw [noteReady_of_ne (by simp [hr])]
    have hlast := h.last hs hp'
    exact hlast
  | @computes session k latest update hs hf hu hr hn =>
    have hnote : noteReady last ⟨.getUpdates, k.reply, s, k.state, k.effects⟩ =
        if update.status = .ready then some (updatesBetween marker b session.committed latest)
        else last := by
      rw [hr, hu]
      rfl
    rw [hnote]
    by_cases hready : update.status = .ready
    · rw [if_pos hready] at hn ⊢
      cases hn.symm.trans hs'
      cases hp'
      rfl
    · rw [if_neg hready] at hn ⊢
      cases hn.symm.trans hs'
      exact h.last hs hp'
  | commits _ _ _ hn => exact (settled hn rfl hs' hp').elim
  | discards _ _ hn => exact (settled hn rfl hs' hp').elim
  | finishes _ _ hn => cases hn.symm.trans hs'

theorem recalling_kept : (recalling marker b).KeptByServing b where
  agrees h := h.agrees
  served h hk hc := recalls_served h (h.marker ▸ hk) hc

theorem recalling_sound (settings : SessionSettings) :
    (recalling marker settings.reportDiagnostics).Sound settings fun _ => True where
  serves hg h := Ledger.keeps_plan recalling_kept hg h
  edits _ h := ⟨h.agrees, h.last, h.marker⟩
  clears h := ⟨h.agrees, h.last, h.marker⟩
  cancelled r g s := noteReady_of_ne nofun
  checked {r} hg g reply s effects := by
    cases r with
    | hasChanges scope => rfl
    | _ => cases hg

/-- A pending update is the last ready one. -/
theorem World.Run.lastReady (h : origin.Run es hs w) (ho : origin.IsFresh)
    (hs' : w.system.state = .active session) (hp : session.pending = some pending) :
    lastReady hs = some (updatesBetween w.engine.marker w.system.settings.reportDiagnostics
      session.committed pending) := by
  have hrecalls := (Ledger.sustains_run (recalling_sound origin.system.settings) ho (g := none)
    ⟨ho.sessions, nofun, rfl⟩ h fun _ _ => trivial).now
  rw [h.system.settings, hrecalls.marker]
  exact hrecalls.last hs' hp

namespace World

/-- The replies to requests that have their turns one after the other. -/
def replies (w : World) : List Request → List (Option Reply)
  | [] => []
  | r :: rs => (w.served r).1 :: (w.served r).2.replies rs

theorem Sound.replies_cons (h : w.Sound) (r : Request) (rs : List Request) : ∃ w',
    w.replies (r :: rs) = some (w.outcome r).reply :: w'.replies rs ∧ w.Answers r w' := by
  obtain ⟨hreply, hanswers⟩ := h.served r
  refine ⟨_, ?_, hanswers⟩
  rw [replies, hreply]

theorem Sound.replies_getUpdates (h : w.Sound) (hs : w.system.state = .active session) :
    w.replies [.getUpdates] = [some (.updates (updatesBetween w.engine.marker
      w.system.settings.reportDiagnostics session.committed w.store.current))] := by
  obtain ⟨w', hreplies, -⟩ := h.replies_cons .getUpdates []
  rw [hreplies, (h.outcome_getUpdates hs).1]
  rfl

/-- Notifications leave the committed snapshot and all that updates depend on. -/
theorem Sound.replies_notifications (h : w.Sound) (hs : w.system.state = .active session)
    (events : List BridgeEvent) (rs : List Request) : ∃ w' session',
      w.replies (events.map BridgeEvent.request ++ rs) =
        events.map (fun _ => some .done) ++ w'.replies rs ∧
      w.GoesOn w' ∧ w'.system.state = .active session' ∧
        session'.committed = session.committed := by
  induction events generalizing w session with
  | nil => exact ⟨w, session, rfl, ⟨h, rfl, rfl, rfl⟩, hs, rfl⟩
  | cons event events ih =>
    obtain ⟨inBreak, hb⟩ : ∃ inBreak, event.request.break? = some inBreak := by
      cases event <;> exact ⟨_, rfl⟩
    obtain ⟨hreply, hstate⟩ := h.outcome_break hs hb
    obtain ⟨v, hfirst, hanswers⟩ :=
      h.replies_cons event.request (events.map BridgeEvent.request ++ rs)
    obtain ⟨w', session', hrest, hgoes, hs', hcommitted⟩ :=
      ih hanswers.sound (hanswers.state.trans hstate)
    refine ⟨w', session', ?_, hanswers.toGoesOn.trans hgoes, hs', hcommitted⟩
    rw [List.map_cons, List.cons_append, hfirst, hreply, hrest]
    rfl

/-- What was discarded can be had again. -/
theorem Sound.replies_discard (h : w.Sound) (hs : w.system.state = .active session)
    (hp : session.pending = some pending) :
    w.replies [.discard, .getUpdates] =
      [some .done, some (.updates (updatesBetween w.engine.marker
        w.system.settings.reportDiagnostics session.committed w.store.current))] := by
  obtain ⟨hreply, hstate⟩ := h.outcome_discard hs hp
  obtain ⟨v, hfirst, hanswers⟩ := h.replies_cons .discard [.getUpdates]
  have hstate' := hanswers.state.trans hstate
  rw [hfirst, hreply, hanswers.sound.replies_getUpdates hstate', hanswers.current,
    hanswers.marker, hanswers.settings]

/-- What was committed is not told again. -/
theorem Sound.replies_commit (h : w.Sound) (hs : w.system.state = .active session)
    (hp : session.pending = some pending) (hdocs : w.store.current.documents = pending.documents)
    (events : List BridgeEvent) :
    w.replies (.commit :: (events.map BridgeEvent.request ++ [.getUpdates])) =
      some .done :: (events.map (fun _ => some .done) ++ [some (.updates {})]) := by
  obtain ⟨hreply, hstate⟩ := h.outcome_commit hs hp
  obtain ⟨u, hfirst, hanswers⟩ :=
    h.replies_cons .commit (events.map BridgeEvent.request ++ [.getUpdates])
  obtain ⟨v, session', hrest, hgoes, hs', hcommitted⟩ :=
    hanswers.sound.replies_notifications (hanswers.state.trans hstate) events [.getUpdates]
  have hcurrent := (hanswers.toGoesOn.trans hgoes).current
  rw [hfirst, hreply, hrest, hgoes.sound.replies_getUpdates hs', hcommitted, hcurrent,
    updatesBetween_of_same hdocs.symm]

end World

/-- Updates are the same whatever led to a session: the same documents have the same updates. -/
theorem updates_are_reproducible (h : origin.Run es hs w) (ho : origin.IsFresh)
    (hscript : origin.script = []) (hs' : w.system.state = .active session) :
    (∀ {origin' w' : World} {es' : List StoreEdit} {hs' : List Happening}
      {session' : ActiveSession}, origin'.Run es' hs' w' → origin'.IsFresh →
      origin'.script = [] → w'.system.state = .active session' →
      w'.engine.marker = w.engine.marker →
      w'.system.settings.reportDiagnostics = w.system.settings.reportDiagnostics →
      session'.committed.documents = session.committed.documents →
      w'.store.current.documents = w.store.current.documents →
      ∃ u, w.replies [.getUpdates] = [some (.updates u)] ∧
        w'.replies [.getUpdates] = [some (.updates u)]) ∧
    ∀ pending, session.pending = some pending → w.store.current.documents = pending.documents →
      (∃ u, lastReady hs = some u ∧
        w.replies [.discard, .getUpdates] = [some .done, some (.updates u)]) ∧
      ∀ events : List BridgeEvent,
        w.replies (.commit :: (events.map BridgeEvent.request ++ [.getUpdates])) =
          some .done :: (events.map (fun _ => some .done) ++ [some (.updates {})]) := by
  have hsound := h.sound ho hscript
  refine ⟨fun h' ho' hscript' hs'' hmarker hreports hcommitted hcurrent => ?_,
    fun pending hp hdocs => ⟨?_, hsound.replies_commit hs' hp hdocs⟩⟩
  · refine ⟨_, hsound.replies_getUpdates hs', ?_⟩
    rw [(h'.sound ho' hscript').replies_getUpdates hs'', hmarker, hreports,
      updatesBetween_congr hcommitted hcurrent]
  · refine ⟨_, h.lastReady ho hs' hp, ?_⟩
    rw [hsound.replies_discard hs' hp, updatesBetween_congr rfl hdocs]

theorem first_update_is_reproducible : ∃ es hs w session pending u u',
    World.blank.Run es hs w ∧ w.system.state = .active session ∧
      session.pending = some pending ∧ session.committed ≠ pending ∧
      w.replies [.getUpdates] = [some (.updates u')] ∧ lastReady hs = some u ∧
      w.replies [.discard, .getUpdates] = [some .done, some (.updates u)] ∧
      w.replies [.commit, .enterBreak, .getUpdates] =
        [some .done, some .done, some (.updates {})] := by
  obtain ⟨hs, started⟩ := World.blank_isFresh.starts rfl
  have edited := started.snoc (.edit (.upsert ⟨.ofText "main.src", "app", "one", false⟩))
  obtain ⟨_, begun⟩ := edited.takesTurn .getUpdates rfl rfl rfl rfl
  have provided := begun.snoc (.answer (.arrive (i := 1) rfl (.answer rfl _)))
  have computed := provided.snoc (.answer (.arrive (i := 1) rfl (.answer rfl _)))
  obtain ⟨hsame, hagain⟩ := updates_are_reproducible computed World.blank_isFresh rfl rfl
  obtain ⟨⟨u, hlast, hdiscard⟩, hcommit⟩ := hagain _ rfl rfl
  obtain ⟨u', hnow, -⟩ := hsame computed World.blank_isFresh rfl rfl rfl rfl rfl rfl
  exact ⟨_, _, _, _, _, u, u', computed, rfl, rfl, by decide, hnow, hlast, hdiscard,
    hcommit [.breakEntered]⟩

end Kernel

end LiveEdit
