import LiveEdit.Proofs.Engine.Classification
import LiveEdit.Proofs.Kernel.Interjection
import LiveEdit.Proofs.Kernel.Publication
import LiveEdit.Proofs.Kernel.Versions
import LiveEdit.Proofs.Source.Contents

/-!
Cycles of a watcher that nobody disturbs. What one cycle leaves is settled: the next one, over the
same source tree, changes nothing any more.
-/
namespace LiveEdit

/-- What a cycle comes to in a session, once the store is up to date, and what it leaves. -/
inductive Cycles (autoCommit : Bool) (marker : Option String) (settings : SessionSettings)
    (current : Snapshot) : SessionState → TickOutcome → SessionState → Prop
  | inactive {s : SessionState} (hs : s.session? = none) :
    Cycles autoCommit marker settings current s .inactive s
  | unchanged {session : ActiveSession}
      (hd : session.committed.differsFrom current none settings.detection = false) :
    Cycles autoCommit marker settings current (.active session) .unchanged (.active session)
  | commits {session : ActiveSession} {u : Updates} (ha : autoCommit = true)
      (hd : session.committed.differsFrom current none settings.detection = true)
      (hu : u = updatesBetween marker settings.reportDiagnostics session.committed current)
      (hr : u.status = .ready) :
    Cycles autoCommit marker settings current (.active session) (.committed u.deltas.length)
      (.active { session with committed := current, pending := none })
  | discards {session : ActiveSession} {u : Updates} (ha : autoCommit = false)
      (hd : session.committed.differsFrom current none settings.detection = true)
      (hu : u = updatesBetween marker settings.reportDiagnostics session.committed current)
      (hr : u.status = .ready) :
    Cycles autoCommit marker settings current (.active session) (.discarded u.deltas.length)
      (.active { session with pending := none })
  | blocks {session : ActiveSession} {u : Updates}
      (hd : session.committed.differsFrom current none settings.detection = true)
      (hu : u = updatesBetween marker settings.reportDiagnostics session.committed current)
      (hb : u.status = .blocked) :
    Cycles autoCommit marker settings current (.active session) (.blocked u.diagnostics.length)
      (.active session)
  | restarts {session : ActiveSession} {u : Updates}
      (hd : session.committed.differsFrom current none settings.detection = true)
      (hu : u = updatesBetween marker settings.reportDiagnostics session.committed current)
      (hr : u.status = .restartRequired) :
    Cycles autoCommit marker settings current (.active session)
      (.restartRequired u.diagnostics.length) (.active session)

/-- What the same cycle comes to when it is run again. -/
def TickOutcome.again : TickOutcome → TickOutcome
  | .committed _ => .unchanged
  | outcome => outcome

section cycles

variable {autoCommit : Bool} {marker : Option String} {settings : SessionSettings}
  {current committed : Snapshot} {s s' s'' : SessionState} {outcome outcome' : TickOutcome}

theorem differsFrom_self (p : Snapshot) (settings : DetectionSettings) :
    p.differsFrom p none settings = false := by
  rw [Snapshot.differsFrom, if_pos rfl]

theorem exists_cycles (autoCommit : Bool) (marker : Option String) (settings : SessionSettings)
    (current : Snapshot) (s : SessionState) :
    ∃ outcome s', Cycles autoCommit marker settings current s outcome s' := by
  cases s with
  | noSession => exact ⟨_, _, .inactive rfl⟩
  | disabled reason => exact ⟨_, _, .inactive rfl⟩
  | active session =>
    cases hd : session.committed.differsFrom current none settings.detection with
    | false => exact ⟨_, _, .unchanged hd⟩
    | true =>
      cases hu : (updatesBetween marker settings.reportDiagnostics session.committed
          current).status with
      | ready =>
        cases autoCommit with
        | true => exact ⟨_, _, .commits rfl hd rfl hu⟩
        | false => exact ⟨_, _, .discards rfl hd rfl hu⟩
      | blocked => exact ⟨_, _, .blocks hd rfl hu⟩
      | restartRequired => exact ⟨_, _, .restarts hd rfl hu⟩

/-- A cycle leaves nothing for the next one to do. -/
theorem Cycles.again (h : Cycles autoCommit marker settings current s outcome s')
    (h' : Cycles autoCommit marker settings current s' outcome' s'') :
    outcome' = outcome.again ∧ s'' = s' := by
  cases h with
  | inactive hs =>
    cases h' with
    | inactive => exact ⟨rfl, rfl⟩
    | _ => cases hs
  | commits =>
    -- what is committed is what the next cycle compares it with
    cases h' <;> simp_all [TickOutcome.again, SessionState.session?, differsFrom_self]
  | unchanged | discards | blocks | restarts =>
    cases h' <;> simp_all [TickOutcome.again, SessionState.session?]

/-- After a check that found a change, a ready update has a delta at least. -/
theorem count_of_ready (hd : committed.differsFrom current none settings.detection = true)
    (hr : (updatesBetween marker settings.reportDiagnostics committed current).status = .ready) :
    1 ≤ (updatesBetween marker settings.reportDiagnostics committed current).deltas.length ∧
      (updatesBetween marker settings.reportDiagnostics committed current).deltas.length =
        (committed.written current).length := by
  obtain ⟨-, hdeltas⟩ := updateOf_ready hr
  constructor
  · apply List.length_pos_iff.mpr
    intro hnone
    have hnil := eq_nil_of_updateOf hr hnone
    rw [Snapshot.differsFrom, DocumentSet.differsAnywhere_eq, hnil] at hd
    simp at hd
  · rw [updatesBetween, hdeltas, Snapshot.length_deltasOf]

/-- What is left of a session by a cycle with an outcome. -/
structure Cycled (current : Snapshot) (s : SessionState) (outcome : TickOutcome)
    (s' : SessionState) : Prop where
  committed {n : Nat} (h : outcome = .committed n) :
    s'.committed? = some current ∧ s'.pending? = none
  kept (h : ∀ n, outcome ≠ .committed n) : s'.committed? = s.committed?
  /-- All documents count that are not as they were last committed. -/
  applied {n : Nat} (h : outcome = .committed n ∨ outcome = .discarded n) :
    ∃ committed, s.committed? = some committed ∧ 1 ≤ n ∧ n = (committed.written current).length

theorem Cycles.cycled (h : Cycles autoCommit marker settings current s outcome s') :
    Cycled current s outcome s' := by
  constructor
  case committed =>
    rintro n rfl
    cases h
    exact ⟨rfl, rfl⟩
  case kept =>
    intro hn
    cases h with
    | commits => exact absurd rfl (hn _)
    | _ => rfl
  case applied =>
    rintro n hn
    cases h with
    | @commits session u _ hd hu hr =>
      subst hu
      obtain rfl : _ = n := by simpa using hn
      exact ⟨session.committed, rfl, count_of_ready hd hr⟩
    | @discards session u _ hd hu hr =>
      subst hu
      obtain rfl : _ = n := by simpa using hn
      exact ⟨session.committed, rfl, count_of_ready hd hr⟩
    | _ => simp at hn

end cycles

namespace Kernel

/-- Requests are answered as before, nobody is at the gate, and the session is in the state. -/
structure World.RestsIn (w : World) (s : SessionState) (w' : World) : Prop
    extends w.GoesOn w' where
  gate : w'.system.gate = {}
  state : w'.system.state = s

section tick

variable {v w w' : World} {autoCommit : Bool} {session : ActiveSession} {pending : Snapshot}
  {s : SessionState} {n : Nat} {r : Request} {α : Type} {client : Client α} {a : α}
  {next : Reply → Client α}

theorem World.GoesOn.restsIn (h : v.GoesOn w) (h' : w.RestsIn s w') : v.RestsIn s w' :=
  ⟨h.trans h'.toGoesOn, h'.gate, h'.state⟩

/-- A client goes on after a request, in a world that goes on. -/
theorem rests_ask (h : w.AtRest) (hnext : ∀ v, v.AtRest → w.Answers r v →
    EndsIn (next (w.outcome r).reply) v a (v.RestsIn s)) :
    EndsIn (.ask r next) w a (w.RestsIn s) := by
  apply endsIn_ask h
  intro v hrest hanswers
  exact (hnext v hrest hanswers).imp fun w' hw' => hanswers.toGoesOn.restsIn hw'

theorem rests_note {diagnostics : List Diagnostic} (h : w.AtRest) (hs : w.system.state = s) :
    EndsIn (.note diagnostics (.done a)) w a (w.RestsIn s) :=
  endsIn_note (endsIn_done ⟨⟨⟨h.script, h.provided, h.agrees⟩, rfl, rfl, rfl⟩, h.gate, hs⟩)

theorem rests_done (h : w.AtRest) (hs : w.system.state = s) :
    EndsIn (.done a) w a (w.RestsIn s) :=
  endsIn_done ⟨⟨h.toSound, rfl, rfl, rfl⟩, h.gate, hs⟩

/-- What is pending is committed, or dropped. -/
theorem settle_cycles (h : w.AtRest) (hs : w.system.state = .active session)
    (hp : session.pending = some pending) :
    EndsIn (settle autoCommit n) w (some (if autoCommit then .committed n else .discarded n))
      (w.RestsIn (.active { session with
        committed := if autoCommit then pending else session.committed
        pending := none })) := by
  have hsettled : (w.outcome (settling autoCommit)).reply = .done ∧
      (w.outcome (settling autoCommit)).state = .active { session with
        committed := if autoCommit then pending else session.committed
        pending := none } := by
    cases autoCommit with
    | true => exact h.toSound.outcome_commit hs hp
    | false => exact h.toSound.outcome_discard hs hp
  obtain ⟨hreply, hstate⟩ := hsettled
  rw [settle_eq]
  apply rests_ask h
  intro v hrest hanswers
  rw [hreply]
  have hs' := hanswers.state.trans hstate
  apply endsIn_look
  rw [hs']
  cases autoCommit with
  | true => exact rests_done hrest hs'
  | false => exact rests_done hrest hs'

theorem conclude_active {u : Updates} {x : Option TickOutcome} {P : World → Prop}
    (hs : w.system.state = .active session) (h : EndsIn (proceed autoCommit u) w x P) :
    EndsIn (conclude autoCommit u) w x P := by
  rw [conclude_eq]
  apply endsIn_look
  rw [hs]
  exact h

section cycle

variable {outcome : TickOutcome} (h : w.AtRest)
  (hcycle : Cycles autoCommit w.engine.marker w.system.settings w.store.current w.system.state
    outcome s)
include h hcycle

/-- Once changes are found, the update is computed and settled as a cycle has it. -/
theorem updates_cycles (hs : w.system.state = .active session)
    (hd : session.committed.differsFrom w.store.current none w.system.settings.detection = true) :
    EndsIn (.ask .getUpdates fun
      | .updates u => conclude autoCommit u
      | _ => .done none) w (some outcome) (w.RestsIn s) := by
  obtain ⟨hreply, hstate⟩ := h.toSound.outcome_getUpdates hs
  apply rests_ask h
  intro v hrest hanswers
  have hs' := hanswers.state.trans hstate
  rw [hreply]
  rw [hs] at hcycle
  cases hcycle with
  | inactive hnone => cases hnone
  | unchanged hd' => cases hd.symm.trans hd'
  | commits ha _ hu hr =>
    subst ha hu
    rw [if_pos hr] at hs'
    apply conclude_active hs'
    rw [proceed_of_ready hr]
    exact (settle_cycles hrest hs' rfl : EndsIn (settle true _) v _ _)
  | discards ha _ hu hr =>
    subst ha hu
    rw [if_pos hr] at hs'
    apply conclude_active hs'
    rw [proceed_of_ready hr]
    exact (settle_cycles hrest hs' rfl : EndsIn (settle false _) v _ _)
  | blocks _ hu hb =>
    subst hu
    rw [if_neg (by simp [hb])] at hs'
    apply conclude_active hs'
    rw [proceed, hb]
    exact rests_note hrest hs'
  | restarts _ hu hr =>
    subst hu
    rw [if_neg (by simp [hr])] at hs'
    apply conclude_active hs'
    rw [proceed, hr]
    exact rests_note hrest hs'

theorem check_cycles (hs : w.system.state = .active session) :
    EndsIn (check autoCommit) w (some outcome) (w.RestsIn s) := by
  have hreply : (w.outcome (.hasChanges none)).reply = .changed
      (session.committed.differsFrom w.store.current none w.system.settings.detection) := by
    rw [World.outcome_hasChanges, hs]
    rfl
  rw [check]
  apply rests_ask h
  intro v hrest hanswers
  have hs' : v.system.state = .active session := by
    rw [hanswers.state, World.outcome_hasChanges, hs]
  rw [hreply]
  cases hd : session.committed.differsFrom w.store.current none w.system.settings.detection with
  | false =>
    rw [hs] at hcycle
    cases hcycle with
    | unchanged => exact rests_done hrest hs'
    | inactive hnone => cases hnone
    | commits _ hd' | discards _ hd' | blocks hd' | restarts hd' => cases hd.symm.trans hd'
  | true =>
    rw [← hanswers.marker, ← hanswers.settings, ← hanswers.current, hs, ← hs'] at hcycle
    rw [← hanswers.settings, ← hanswers.current] at hd
    exact updates_cycles hrest hcycle hs' hd

end cycle

/-- What a cycle comes to, with its look at the source tree. -/
inductive Ticks (autoCommit : Bool) (w : World) : TickOutcome → SessionState → Prop
  | unscanned (hfail : w.rescan.1 = false) : Ticks autoCommit w .scanFailed w.system.state
  | scanned {outcome : TickOutcome} {s : SessionState} (hok : w.rescan.1 = true)
      (hcycle : Cycles autoCommit w.engine.marker w.system.settings w.rescan.2.store.current
        w.system.state outcome s) : Ticks autoCommit w outcome s

theorem scanned_cycles {outcome : TickOutcome} (h : w.AtRest) (hok : w.rescan.1 = true)
    (hcycle : Cycles autoCommit w.engine.marker w.system.settings w.rescan.2.store.current
      w.system.state outcome s) :
    EndsIn (tick autoCommit) w (some outcome) (w.rescan.2.RestsIn s) := by
  obtain ⟨hsystem, hengine⟩ := rescan_system (w := w)
  rw [tick_eq]
  apply endsIn_rescan
  rw [hok]
  apply endsIn_look
  rw [← hsystem, ← hengine] at hcycle
  cases hs : w.rescan.2.system.state with
  | active session => exact check_cycles h.rescan hcycle hs
  | noSession =>
    rw [hs] at hcycle
    cases hcycle
    exact rests_done h.rescan hs
  | disabled reason =>
    rw [hs] at hcycle
    cases hcycle
    exact rests_done h.rescan hs

/-- Whatever the world is like, a cycle comes to an end in it. -/
theorem tick_ends (h : w.AtRest) (autoCommit : Bool) : ∃ outcome s,
    Ticks autoCommit w outcome s ∧
      EndsIn (tick autoCommit) w (some outcome) (w.rescan.2.RestsIn s) := by
  cases hok : w.rescan.1 with
  | false =>
    refine ⟨.scanFailed, w.system.state, .unscanned hok, ?_⟩
    rw [tick_eq]
    apply endsIn_rescan
    rw [hok]
    exact rests_done h.rescan (congrArg System.state rescan_system.1)
  | true =>
    obtain ⟨outcome, s, hcycle⟩ := exists_cycles autoCommit w.engine.marker w.system.settings
      w.rescan.2.store.current w.system.state
    exact ⟨outcome, s, .scanned hok hcycle, scanned_cycles h hok hcycle⟩

theorem Ticks.cycled {outcome : TickOutcome} (h : Ticks autoCommit w outcome s) :
    Cycled w.rescan.2.store.current w.system.state outcome s := by
  cases h with
  | scanned hok hcycle => exact hcycle.cycled
  | unscanned =>
    constructor
    case committed => rintro n ⟨⟩
    case kept => exact fun _ => rfl
    case applied => rintro n (⟨⟨⟩⟩ | ⟨⟨⟩⟩)

end tick

namespace World

variable {origin w w' : World} {es : List StoreEdit} {hs : List Happening}

theorem take_scan (e : Effect) : (w.take e).scan = w.scan := by
  cases e with
  | release =>
    simp only [take]
    split <;> rfl
  | _ => rfl

theorem step_scan (f : System → System) : (w.step f).scan = w.scan :=
  foldl_take (fun _ => take_scan) _

theorem perform_scan (call : Call) : (w.perform call).2.scan = w.scan := by
  cases call <;> cases hp : w.provided <;> simp [perform, hp] <;> rfl

/-- The source tree and the settings of the watcher stay as they are. -/
theorem Run.scan (h : origin.Run es hs w) : w.scan = origin.scan := by
  induction h with
  | nil => rfl
  | snoc h hw ih =>
    cases hw with
    | move => rw [step_scan, ih]
    | answer => rw [step_scan, perform_scan, ih]
    | edit => exact ih
    | note => exact ih

/-- Each publication has a version of its own. -/
theorem Run.published (h : origin.Run es hs w) :
    w.store.published + origin.store.current.version =
      origin.store.published + w.store.current.version := by
  have heard {w : World} (f : System → System) : (w.step f).store.published = w.store.published ∧
      (w.step f).store.current = w.store.current := by
    rcases step_collaborators (w := w) f with hc | hc <;> rw [hc] <;> exact ⟨rfl, rfl⟩
  induction h with
  | nil => rfl
  | @snoc es es' hs hs' u v h hw ih =>
    cases hw with
    | move => rw [(heard _).1, (heard _).2, ih]
    | answer => rw [(heard _).1, (heard _).2, perform_store, ih]
    | edit e =>
      rcases e.apply_cases u.store with heq | heq | ⟨documents, heq⟩
      · simp only [heq, ih]
      · simp only [heq]
        exact ih
      · have hpublished : (u.store.publish documents).published = u.store.published + 1 := rfl
        have hversion : (u.store.publish documents).current.version =
          u.store.current.version + 1 := rfl
        simp only [heq, hpublished, hversion]
        omega
    | note => exact ih

end World

variable {origin w w' : World} {es : List StoreEdit} {hs : List Happening} {autoCommit : Bool}
  {outcome outcome' : TickOutcome} {s s' : SessionState}

/-- The same sources publish nothing. -/
theorem replaceAll_of_contents {store : Store} {documents : DocumentSet}
    (h : store.current.documents.contents = documents.contents) :
    store.replaceAll documents = store := by
  rw [store.in_step] at h
  rw [Store.replaceAll, Store.replacing, if_pos (DocumentSet.sameSources_iff.mpr h.symm)]

/-- A store that is up to date with the source tree stays as it is. -/
theorem rescan_again (hscan : w'.scan = w.scan)
    (hcurrent : w'.store.current = w.rescan.2.store.current) :
    w'.rescan = (w.rescan.1, w') := by
  rw [World.rescan] at hcurrent ⊢
  rw [World.rescan, hscan]
  cases hfound : w.scan with
  | error error => rfl
  | ok findings =>
    simp only [hfound] at hcurrent ⊢
    have hsame := w.store.contents_replaceAll (.ofList (findings.filterMap Finding.document?))
    rw [← hcurrent] at hsame
    rw [replaceAll_of_contents hsame]

theorem Ticks.again (h : Ticks autoCommit w outcome s) (hrests : w.rescan.2.RestsIn s w')
    (hagain : w'.rescan = (w.rescan.1, w')) (h' : Ticks autoCommit w' outcome' s') :
    outcome' = outcome.again ∧ s' = s := by
  obtain ⟨hsystem, hengine⟩ := rescan_system (w := w)
  cases h with
  | unscanned hfail =>
    cases h' with
    | unscanned => exact ⟨rfl, hrests.state⟩
    | scanned hok => simp [hagain, hfail] at hok
  | scanned hok hcycle =>
    cases h' with
    | unscanned hfail => simp [hagain, hok] at hfail
    | scanned _ hcycle' =>
      rw [hagain, hrests.marker, hrests.settings, hrests.current, hrests.state, hsystem,
        hengine] at hcycle'
      exact hcycle.again hcycle'

/-- Two cycles over one source tree, the second of which finds all done. -/
structure Converges (w : World) (first : TickOutcome) (w₁ : World) (second : TickOutcome)
    (w₂ : World) : Prop where
  cycled : Cycled w₁.store.current w.system.state first w₁.system.state
  outcome : second = first.again
  state : w₂.system.state = w₁.system.state
  /-- Nothing is published. -/
  published : w₂.store.published = w₁.store.published
  current : w₂.store.current = w₁.store.current

theorem World.AtRest.played {α : Type} {client : Client α} {progress : Progress α}
    (h : w.AtRest) (hrun : (play false client).run w = (progress, w')) :
    ∃ es hs, w.Run es hs w' := by
  obtain ⟨es, hs, hplayed⟩ :
      ∃ es hs, w.Run ([] ++ es) ([] ++ hs) ((play false client).run w).2 :=
    World.Run.nil.play h.script client
  rw [hrun] at hplayed
  exact ⟨_, _, hplayed⟩

/-- Whatever the session, the source tree and the settings, one cycle leaves the next no work. -/
theorem cycles_converge (h : origin.Run es hs w) (ho : origin.IsFresh)
    (hscript : origin.script = []) (hgate : w.system.gate = {}) (autoCommit : Bool) :
    ∃ first w₁ second w₂,
      (play false (tick autoCommit)).run w = (.finished (some first), w₁) ∧
      (play false (tick autoCommit)).run w₁ = (.finished (some second), w₂) ∧
      Converges w first w₁ second w₂ := by
  have hrest : w.AtRest := ⟨h.sound ho hscript, hgate⟩
  obtain ⟨first, s₁, hfirst, w₁, hrun₁, hrests₁⟩ := tick_ends hrest autoCommit
  have hrest₁ : w₁.AtRest := ⟨hrests₁.sound, hrests₁.gate⟩
  obtain ⟨second, s₂, hsecond, w₂, hrun₂, hrests₂⟩ := tick_ends hrest₁ autoCommit
  obtain ⟨es₁, hs₁, hplayed₁⟩ := hrest.played hrun₁
  obtain ⟨es₂, hs₂, hplayed₂⟩ := hrest₁.played hrun₂
  have hagain := rescan_again hplayed₁.scan hrests₁.current
  obtain ⟨houtcome, rfl⟩ := hfirst.again hrests₁ hagain hsecond
  have hcurrent : w₂.store.current = w₁.store.current := by rw [hrests₂.current, hagain]
  refine ⟨first, w₁, second, w₂, hrun₁, hrun₂, ?_, houtcome, ?_, ?_, hcurrent⟩
  · rw [hrests₁.current, hrests₁.state]
    exact hfirst.cycled
  · rw [hrests₂.state, hrests₁.state]
  · have hpublished := hplayed₂.published
    rw [hcurrent] at hpublished
    omega

/-- A file that is new to a session is committed by the first cycle, and unchanged in the next. -/
theorem second_cycle_finds_all_done : ∃ hs w w₁ w₂, World.watched.Run [] hs w ∧
    World.watched.IsFresh ∧ World.watched.script = [] ∧ w.system.gate = {} ∧
      (play false (tick true)).run w = (.finished (some (.committed 1)), w₁) ∧
      (play false (tick true)).run w₁ = (.finished (some .unchanged), w₂) ∧
      Converges w (.committed 1) w₁ .unchanged w₂ := by
  obtain ⟨hs, w, session, hrun, hgate, -, -, -, w', hends, -⟩ := watched_starts
  obtain ⟨first, w₁, second, w₂, hfirst, hsecond, hconverges⟩ :=
    cycles_converge hrun World.watched_isFresh rfl hgate true
  cases hends.symm.trans hfirst
  obtain rfl : second = .unchanged := hconverges.outcome
  exact ⟨hs, w, _, w₂, hrun, World.watched_isFresh, rfl, hgate, hfirst, hsecond, hconverges⟩

end Kernel

end LiveEdit
