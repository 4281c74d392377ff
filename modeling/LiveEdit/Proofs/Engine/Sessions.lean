import LiveEdit.Engine.Checksum
import Mathlib.Data.List.Basic
import Mathlib.Data.List.Induction
import Mathlib.Data.List.TakeWhile
import Mathlib.Data.Option.Basic

/-!
The sessions of an engine, told by its log alone: which of them are open, what they are based on
and what update waits in them. Each is told by what it was asked itself.
-/
namespace LiveEdit

/-- What an engine can be asked for. -/
inductive EngineRequest where
  | start (baseline : Snapshot) (reportDiagnostics : Bool)
  | reportBreak (id : EngineSessionId) (inBreak : Option Bool)
  | compute (id : EngineSessionId) (baseline target : Snapshot)
  | commit (id : EngineSessionId)
  | discard (id : EngineSessionId)
  | close (id : EngineSessionId)
  deriving DecidableEq

/-- The session that a request is for. -/
def EngineRequest.session? : EngineRequest → Option EngineSessionId
  | .start _ _ => none
  | .reportBreak id _ | .compute id _ _ | .commit id | .discard id | .close id => some id

inductive EngineReply where
  | opened (id : EngineSessionId)
  | done
  | update (u : Update)
  | refused (error : EngineError)
  deriving DecidableEq

/-- A request with its reply. A log starts with the latest. -/
structure Served where
  request : EngineRequest
  reply : EngineReply
  deriving DecidableEq

namespace ChecksumEngine

def replied {α : Type} (f : α → EngineReply) (r : Except EngineError α × ChecksumEngine) :
    EngineReply × ChecksumEngine :=
  (match r.1 with
    | .ok a => f a
    | .error e => .refused e, r.2)

def serve (engine : ChecksumEngine) : EngineRequest → EngineReply × ChecksumEngine
  | .start baseline reportDiagnostics =>
    let (id, engine) := engine.start baseline reportDiagnostics
    (.opened id, engine)
  | .reportBreak id inBreak => replied (fun _ => .done) (engine.reportBreak id inBreak)
  | .compute id baseline target => replied .update (engine.compute id baseline target)
  | .commit id => replied (fun _ => .done) (engine.commit id)
  | .discard id => replied (fun _ => .done) (engine.discard id)
  | .close id => replied (fun _ => .done) (engine.close id)

/-- Serves requests, the earliest first. -/
def serveAll (engine : ChecksumEngine) (rs : List EngineRequest) : List Served × ChecksumEngine :=
  rs.foldl (fun (log, engine) r =>
    let (reply, engine) := engine.serve r
    (⟨r, reply⟩ :: log, engine)) ([], engine)

end ChecksumEngine

namespace Served

/-- The version that the session starts from here. -/
def starts? (id : EngineSessionId) : Served → Option Nat
  | ⟨.start baseline _, .opened i⟩ => if i = id then some baseline.version else none
  | _ => none

/-- The version that an update is ready for, computed here for the session. -/
def readies? (id : EngineSessionId) : Served → Option Nat
  | ⟨.compute i _ target, .update u⟩ =>
    if i = id ∧ u.status = .ready then some target.version else none
  | _ => none

/-- What is told here of the session's process being stopped or not. -/
def reports? (id : EngineSessionId) : Served → Option Bool
  | ⟨.reportBreak i inBreak, .done⟩ => if i = id then inBreak else none
  | _ => none

def Commits (id : EngineSessionId) (e : Served) : Prop := e = ⟨.commit id, .done⟩

def Discards (id : EngineSessionId) (e : Served) : Prop := e = ⟨.discard id, .done⟩

def Closes (id : EngineSessionId) (e : Served) : Prop := e = ⟨.close id, .done⟩

/-- From here on no update waits in the session. -/
def Settles (id : EngineSessionId) (e : Served) : Prop :=
  (e.starts? id).isSome ∨ e.Commits id ∨ e.Discards id

instance (id : EngineSessionId) (e : Served) : Decidable (e.Commits id) :=
  inferInstanceAs (Decidable (_ = _))

instance (id : EngineSessionId) (e : Served) : Decidable (e.Settles id) :=
  inferInstanceAs (Decidable (_ ∨ _ = _ ∨ _ = _))

/-- Nothing happens here to the session. -/
structure Silent (id : EngineSessionId) (e : Served) : Prop where
  starts : e.starts? id = none
  readies : e.readies? id = none
  reports : e.reports? id = none
  commits : ¬e.Commits id
  discards : ¬e.Discards id
  closes : ¬e.Closes id

variable {id i : EngineSessionId} {e : Served} {r : EngineRequest} {error : EngineError}
  {baseline target : Snapshot} {u : Update}

theorem silent_of_other (hr : e.request.session? ≠ some id) (ho : e.reply ≠ .opened id) :
    e.Silent id := by
  obtain ⟨r, reply⟩ := e
  constructor
  case commits | discards | closes => rintro ⟨⟩; exact hr rfl
  all_goals cases r <;> cases reply <;> grind [starts?, readies?, reports?, EngineRequest.session?]

theorem silent_of_refused : Silent id ⟨r, .refused error⟩ := by
  constructor
  case commits | discards | closes => rintro ⟨⟩
  all_goals cases r <;> rfl

theorem silent_of_unready (hu : u.status ≠ .ready) :
    Silent id ⟨.compute i baseline target, .update u⟩ where
  starts := rfl
  readies := if_neg fun h => hu h.2
  reports := rfl
  commits := nofun
  discards := nofun
  closes := nofun

/-- Only a start opens a session. -/
theorem starts?_eq_none (ho : e.reply ≠ .opened id) : e.starts? id = none := by
  obtain ⟨r, reply⟩ := e
  cases r <;> cases reply <;> grind [starts?]

theorem Silent.settles (h : e.Silent id) : ¬e.Settles id := by
  rintro (hs | hs | hs)
  · simp [h.starts] at hs
  · exact h.commits hs
  · exact h.discards hs

end Served

/-- The session was started, and was not closed. -/
def OpenIn (id : EngineSessionId) (log : List Served) : Prop :=
  (log.findSome? (·.starts? id)).isSome ∧ ∀ e ∈ log, ¬e.Closes id

/--
The version of the last update that was ready before the last commit, or the version that the
session started from.
-/
def baselineOf? (id : EngineSessionId) (log : List Served) : Option Nat :=
  match log.dropWhile fun e => ¬e.Commits id with
  | [] => log.findSome? (·.starts? id)
  | _ :: before => before.findSome? (·.readies? id)

/-- The version of the last update that was ready since the session started or was settled. -/
def tentativeOf? (id : EngineSessionId) (log : List Served) : Option Nat :=
  (log.takeWhile fun e => ¬e.Settles id).findSome? (·.readies? id)

/-- The last that was told of the session's process being stopped or not. -/
def breakStateOf? (id : EngineSessionId) (log : List Served) : Option Bool :=
  log.findSome? (·.reports? id)

/-- The session is as the log has it. -/
structure EngineSession.Tells (s : EngineSession) (log : List Served) : Prop where
  baseline : baselineOf? s.id log = some s.baseline
  tentative : tentativeOf? s.id log = s.tentative
  inBreak : breakStateOf? s.id log = s.inBreak

section Log

variable {id : EngineSessionId} {e : Served} {log : List Served} {s : EngineSession} {version : Nat}

theorem openIn_silent (he : e.Silent id) : OpenIn id (e :: log) ↔ OpenIn id log := by
  simp [OpenIn, he.starts, he.closes]

theorem baselineOf?_cons (hs : e.starts? id = none) (hc : ¬e.Commits id) :
    baselineOf? id (e :: log) = baselineOf? id log := by
  simp [baselineOf?, hs, hc]

theorem tentativeOf?_cons (hs : ¬e.Settles id) :
    tentativeOf? id (e :: log) = (e.readies? id <|> tentativeOf? id log) := by
  simp [tentativeOf?, hs, List.findSome?_cons]
  cases e.readies? id <;> rfl

theorem tentativeOf?_settled (hs : e.Settles id) : tentativeOf? id (e :: log) = none := by
  simp [tentativeOf?, hs]

/-- A commit takes the update that waits. -/
theorem baselineOf?_commit (hc : e.Commits id) (ht : tentativeOf? id log = some version) :
    baselineOf? id (e :: log) = some version := by
  have hlast : log.findSome? (·.readies? id) = some version := by
    rw [tentativeOf?] at ht
    rw [← List.takeWhile_append_dropWhile (p := fun e => ¬e.Settles id) (l := log),
      List.findSome?_append, ht]
    rfl
  simpa [baselineOf?, hc] using hlast

theorem breakStateOf?_cons :
    breakStateOf? id (e :: log) = (e.reports? id <|> breakStateOf? id log) := by
  rw [breakStateOf?, List.findSome?_cons]
  cases e.reports? id <;> rfl

theorem EngineSession.Tells.silent (h : s.Tells log) (he : e.Silent s.id) : s.Tells (e :: log) where
  baseline := (baselineOf?_cons he.starts he.commits).trans h.baseline
  tentative := by rw [tentativeOf?_cons he.settles, he.readies, h.tentative]; rfl
  inBreak := by rw [breakStateOf?_cons, he.reports, h.inBreak]; rfl

/-- A session that starts is as it is started, if there is nothing of it in the log. -/
theorem tells_start (h : ∀ e ∈ log, e.Silent id) (baseline : Snapshot) (reportDiagnostics : Bool) :
    EngineSession.Tells { id, baseline := baseline.version, reportDiagnostics }
      (⟨.start baseline reportDiagnostics, .opened id⟩ :: log) where
  baseline := by
    have hstarts : Served.starts? id ⟨.start baseline reportDiagnostics, .opened id⟩ =
      some baseline.version := if_pos rfl
    have hcommits : ∀ e ∈ log, ¬e.Commits id := fun e he => (h e he).commits
    have hdrop : log.dropWhile (fun e => ¬e.Commits id) = [] :=
      List.dropWhile_eq_nil_iff.mpr (by simpa using hcommits)
    rw [baselineOf?, List.dropWhile_cons_of_pos (by simp [Served.Commits]), hdrop]
    simp [hstarts]
  tentative := tentativeOf?_settled (.inl (by simp [Served.starts?]))
  inBreak := List.findSome?_eq_none_iff.mpr <|
    List.forall_mem_cons.mpr ⟨rfl, fun e he => (h e he).reports⟩

end Log

namespace ChecksumEngine

variable {engine next : ChecksumEngine} {r : EngineRequest} {reply : EngineReply}
  {id i : EngineSessionId} {s s' : EngineSession} {log : List Served} {e : Served}
  {version : Nat}

theorem id_of_session? (h : engine.session? id = some s) : s.id = id := by
  simpa using List.find?_some h

theorem session?_put (h : engine.session? s'.id = some s) :
    (engine.put s').session? id = if id = s'.id then some s' else engine.session? id := by
  have hsame (x : EngineSession) : (if x.id = s'.id then s' else x).id = x.id := by
    split
    next hx => exact hx.symm
    next => rfl
  have hfind : (engine.put s').session? id =
      (engine.session? id).map fun x => if x.id = s'.id then s' else x := by
    simp only [session?, put, List.find?_map, Function.comp_def, hsame]
  rw [hfind]
  split
  next hid => rw [hid, h, Option.map_some, if_pos (id_of_session? h)]
  next hid =>
    cases hx : engine.session? id with
    | none => rfl
    | some x => rw [Option.map_some, if_neg (id_of_session? hx ▸ hid)]

theorem session?_start (h : engine.session? s.id = none) :
    ChecksumEngine.session? ⟨engine.marker, engine.sessions ++ [s], version⟩ id =
      if id = s.id then some s else engine.session? id := by
  rw [session?, List.find?_append, ← session?]
  split
  next hid => rw [hid, h]; simp
  next hid => simp [Ne.symm hid]

theorem session?_close : ChecksumEngine.session?
      ⟨engine.marker, engine.sessions.filter (·.id ≠ i), version⟩ id =
    if id = i then none else engine.session? id := by
  rw [session?, List.find?_filter]
  split
  next hid => simp [hid]
  next hid =>
    rw [session?]
    congr 1
    funext s
    by_cases hs : s.id = id <;> simp [hs, hid]

/-- What a request comes to. -/
inductive Serves (engine : ChecksumEngine) : EngineRequest → EngineReply → ChecksumEngine → Prop
  | starts (baseline : Snapshot) (reportDiagnostics : Bool) :
    Serves engine (.start baseline reportDiagnostics) (.opened ⟨engine.opened + 1⟩)
      (engine.start baseline reportDiagnostics).2
  | unknown {r : EngineRequest} {id : EngineSessionId} (hr : r.session? = some id)
      (h : engine.session? id = none) :
    Serves engine r (.refused (.unknownSession id)) engine
  | reports {s : EngineSession} (h : engine.session? s.id = some s) (inBreak : Option Bool) :
    Serves engine (.reportBreak s.id inBreak) .done
      (engine.put { s with inBreak := inBreak <|> s.inBreak })
  | readies {s : EngineSession} {u : Update} (h : engine.session? s.id = some s)
      (hu : u.status = .ready) (baseline target : Snapshot) :
    Serves engine (.compute s.id baseline target) (.update u)
      (engine.put { s with tentative := some target.version })
  | fails {s : EngineSession} {u : Update} (h : engine.session? s.id = some s)
      (hu : u.status ≠ .ready) (baseline target : Snapshot) :
    Serves engine (.compute s.id baseline target) (.update u) engine
  | commits {s : EngineSession} {version : Nat} (h : engine.session? s.id = some s)
      (ht : s.tentative = some version) :
    Serves engine (.commit s.id) .done
      (engine.put { s with baseline := version, tentative := none })
  | discards {s : EngineSession} {version : Nat} (h : engine.session? s.id = some s)
      (ht : s.tentative = some version) :
    Serves engine (.discard s.id) .done (engine.put { s with tentative := none })
  | noPending {r : EngineRequest} {s : EngineSession} (hr : r = .commit s.id ∨ r = .discard s.id)
      (h : engine.session? s.id = some s) (ht : s.tentative = none) :
    Serves engine r (.refused (.noPendingUpdate s.id)) engine
  | closes {s : EngineSession} (h : engine.session? s.id = some s) :
    Serves engine (.close s.id) .done
      { engine with sessions := engine.sessions.filter (·.id ≠ s.id) }

theorem serves_withSession {α : Type} {act : EngineSession → Except EngineError α × ChecksumEngine}
    {f : α → EngineReply} (hr : r.session? = some id)
    (h : ∀ s, engine.session? s.id = some s → s.id = id →
      engine.Serves r (replied f (act s)).1 (replied f (act s)).2) :
    engine.Serves r (replied f (engine.withSession id act)).1
      (replied f (engine.withSession id act)).2 := by
  rw [withSession]
  cases hs : engine.session? id with
  | none => exact .unknown hr hs
  | some s =>
    have hid := id_of_session? hs
    exact h s (hid ▸ hs) hid

theorem serve_serves (engine : ChecksumEngine) (r : EngineRequest) :
    engine.Serves r (engine.serve r).1 (engine.serve r).2 := by
  cases r with
  | start baseline reportDiagnostics => exact .starts baseline reportDiagnostics
  | reportBreak id inBreak =>
    refine serves_withSession rfl ?_
    rintro s h rfl
    exact .reports h inBreak
  | compute id baseline target =>
    refine serves_withSession rfl ?_
    rintro s h rfl
    dsimp only [replied]
    split
    next hu => exact .readies h hu baseline target
    next hu => exact .fails h hu baseline target
  | commit id =>
    refine serves_withSession rfl ?_
    rintro s h rfl
    cases ht : s.tentative with
    | none => exact .noPending (.inl rfl) h ht
    | some version => exact .commits h ht
  | discard id =>
    refine serves_withSession rfl ?_
    rintro s h rfl
    cases ht : s.tentative with
    | none => exact .noPending (.inr rfl) h ht
    | some version => exact .discards h ht
  | close id =>
    refine serves_withSession rfl ?_
    rintro s h rfl
    exact .closes h

theorem Serves.unknown_iff (hs : engine.Serves r reply next) (hr : r.session? = some id) :
    reply = .refused (.unknownSession id) ↔ engine.session? id = none := by
  cases hs with
  | starts => cases hr
  | unknown hr' h =>
    cases hr.symm.trans hr'
    exact iff_of_true rfl h
  | noPending hr' h =>
    obtain rfl | rfl := hr' <;> cases hr <;> exact iff_of_false nofun (by simp [h])
  | reports h | readies h | fails h | commits h | discards h | closes h =>
    cases hr
    exact iff_of_false nofun (by simp [h])

theorem Serves.refused {error : EngineError} (hs : engine.Serves r reply next)
    (h : reply = .refused error) : next = engine := by
  cases hs with
  | unknown | noPending => rfl
  | starts | reports | readies | fails | commits | discards | closes => cases h

theorem Serves.unready {baseline target : Snapshot} {u : Update}
    (hs : engine.Serves (.compute id baseline target) reply next) (h : reply = .update u)
    (hu : u.status ≠ .ready) : next = engine := by
  cases hs with
  | unknown | noPending | fails => rfl
  | readies _ hready =>
    cases h
    exact absurd hready hu

/-- What waits in a session can be committed or discarded; nothing else can. -/
theorem serve_settles (h : engine.session? id = some s) (hr : r = .commit id ∨ r = .discard id) :
    (engine.serve r).1 =
      if s.tentative.isSome then .done else .refused (.noPendingUpdate id) := by
  obtain rfl | rfl := hr <;> simp only [serve, commit, discard, withSession, h, replied] <;>
    cases s.tentative <;> rfl

/-- A request leaves all sessions as they are but the one that it is for, or that it starts. -/
theorem Serves.apart (hs : engine.Serves r reply next)
    (hnew : engine.session? ⟨engine.opened + 1⟩ = none) (hr : r.session? ≠ some id)
    (ho : reply ≠ .opened id) : next.session? id = engine.session? id := by
  cases hs with
  | starts => exact Eq.trans (session?_start hnew) (if_neg fun hid => ho (congrArg _ hid.symm))
  | unknown | noPending | fails => rfl
  | reports h | readies h | commits h | discards h =>
    exact Eq.trans (session?_put h) (if_neg fun hid => hr (congrArg some hid.symm))
  | closes h => exact Eq.trans session?_close (if_neg fun hid => hr (congrArg some hid.symm))

/-- The engine's sessions are those that the log has open, and each is as the log has it. -/
structure Logged (log : List Served) (engine : ChecksumEngine) : Prop where
  opens (id : EngineSessionId) : (engine.session? id).isSome ↔ OpenIn id log
  tells {s : EngineSession} (h : engine.session? s.id = some s) : s.Tells log
  /-- Nothing has happened yet to a session that is not started. -/
  silent {id : EngineSessionId} (h : engine.opened < id.serial) : ∀ e ∈ log, e.Silent id

theorem logged_new (marker : String) : Logged [] (new marker) where
  opens _ := iff_of_false nofun fun h => absurd h.1 nofun
  tells := nofun
  silent _ _ he := absurd he List.not_mem_nil

theorem logged_silent (h : Logged log engine) (he : ∀ id, e.Silent id) :
    Logged (e :: log) engine where
  opens id := (h.opens id).trans (openIn_silent (he id)).symm
  tells hs := (h.tells hs).silent (he _)
  silent hid := List.forall_mem_cons.mpr ⟨he _, h.silent hid⟩

/-- A session that is not started is not open. -/
theorem Logged.session?_eq_none (h : Logged log engine) (hid : engine.opened < id.serial) :
    engine.session? id = none := by
  have hnone : log.findSome? (·.starts? id) = none :=
    List.findSome?_eq_none_iff.mpr fun e he => (h.silent hid e he).starts
  rw [← Option.not_isSome_iff_eq_none, h.opens, OpenIn, hnone]
  simp

theorem Logged.serial_le (h : Logged log engine) (hs : engine.session? id = some s) :
    id.serial ≤ engine.opened := by
  by_contra hlt
  rw [h.session?_eq_none (Nat.not_le.mp hlt)] at hs
  cases hs

/-- One session is changed, and all that happens happens to it. -/
theorem logged_update (h : Logged log engine) {changed : Option EngineSession}
    (hnext : ∀ id, next.session? id = if id = i then changed else engine.session? id)
    (he : ∀ id, id ≠ i → e.Silent id) (hopen : changed.isSome ↔ OpenIn i (e :: log))
    (htells : ∀ s, changed = some s → s.Tells (e :: log)) (hi : i.serial ≤ next.opened)
    (hopened : engine.opened ≤ next.opened) : Logged (e :: log) next := by
  constructor
  case opens =>
    intro id
    rw [hnext]
    split
    next hid => exact hid ▸ hopen
    next hid => exact (h.opens id).trans (openIn_silent (he id hid)).symm
  case tells =>
    intro s hs
    rw [hnext] at hs
    split at hs
    next => exact htells s hs
    next hid => exact (h.tells hs).silent (he _ hid)
  case silent =>
    intro id hid
    have hne : id ≠ i := by
      rintro rfl
      exact Nat.not_lt.mpr hi hid
    exact List.forall_mem_cons.mpr ⟨he id hne, h.silent (Nat.lt_of_le_of_lt hopened hid)⟩

theorem logged_start (h : Logged log engine) (baseline : Snapshot) (reportDiagnostics : Bool) :
    Logged (⟨.start baseline reportDiagnostics, .opened ⟨engine.opened + 1⟩⟩ :: log)
      (engine.start baseline reportDiagnostics).2 := by
  have hsilent : ∀ e ∈ log, e.Silent ⟨engine.opened + 1⟩ := h.silent (Nat.lt_succ_self _)
  refine logged_update h (fun id => session?_start (h.session?_eq_none (Nat.lt_succ_self _)))
    (fun id hid => Served.silent_of_other nofun fun heq => hid (EngineReply.opened.inj heq).symm)
    (iff_of_true rfl ⟨?_, ?_⟩) ?_ (Nat.le_refl _) (Nat.le_succ _)
  · simp [Served.starts?]
  · exact List.forall_mem_cons.mpr ⟨nofun, fun e he => (hsilent e he).closes⟩
  · rintro _ ⟨⟩
    exact tells_start hsilent baseline reportDiagnostics

theorem logged_put (h : Logged log engine) (hs : engine.session? s'.id = some s)
    (hr : r.session? = some s'.id) (ho : ∀ id, reply ≠ .opened id)
    (hc : ¬Served.Closes s'.id ⟨r, reply⟩) (ht : s'.Tells (⟨r, reply⟩ :: log)) :
    Logged (⟨r, reply⟩ :: log) (engine.put s') := by
  have hopen := (h.opens s'.id).mp (by rw [hs]; rfl)
  have hstarts : Served.starts? s'.id ⟨r, reply⟩ = none := Served.starts?_eq_none (ho _)
  refine logged_update h (fun id => session?_put hs) (fun id hid => ?_) (iff_of_true rfl ?_) ?_
    (h.serial_le hs) (Nat.le_refl _)
  · exact Served.silent_of_other (fun heq => hid (Option.some.inj (heq.symm.trans hr))) (ho id)
  · simpa [OpenIn, hstarts, hc] using hopen
  · rintro _ ⟨⟩
    exact ht

theorem logged_close (h : Logged log engine) (hs : engine.session? s.id = some s) :
    Logged (⟨.close s.id, .done⟩ :: log)
      { engine with sessions := engine.sessions.filter (·.id ≠ s.id) } := by
  refine logged_update h (fun id => session?_close) (fun id hid => ?_) ⟨nofun, ?_⟩ nofun
    (h.serial_le hs) (Nat.le_refl _)
  · exact Served.silent_of_other (fun heq => hid (Option.some.inj heq).symm) nofun
  · exact fun hopen => absurd rfl (hopen.2 _ List.mem_cons_self)

theorem logged_serves (h : Logged log engine) (hs : engine.Serves r reply next) :
    Logged (⟨r, reply⟩ :: log) next := by
  cases hs with
  | starts baseline reportDiagnostics => exact logged_start h baseline reportDiagnostics
  | unknown => exact logged_silent h fun _ => Served.silent_of_refused
  | noPending => exact logged_silent h fun _ => Served.silent_of_refused
  | fails _ hu => exact logged_silent h fun _ => Served.silent_of_unready hu
  | closes hs => exact logged_close h hs
  | @reports s hs inBreak =>
    have ht := h.tells hs
    refine logged_put h hs rfl nofun nofun ⟨?_, ?_, ?_⟩
    · exact (baselineOf?_cons rfl (by nofun)).trans ht.baseline
    · exact (tentativeOf?_cons (by rintro (h | h | h) <;> cases h)).trans ht.tentative
    · rw [breakStateOf?_cons, ht.inBreak, Served.reports?, if_pos rfl]
  | @readies s u hs hu baseline target =>
    have ht := h.tells hs
    refine logged_put h hs rfl nofun nofun ⟨?_, ?_, ?_⟩
    · exact (baselineOf?_cons rfl (by nofun)).trans ht.baseline
    · rw [tentativeOf?_cons (by rintro (h | h | h) <;> cases h), Served.readies?, if_pos ⟨rfl, hu⟩]
      rfl
    · exact breakStateOf?_cons.trans ht.inBreak
  | @commits s version hs hv =>
    have ht := h.tells hs
    refine logged_put h hs rfl nofun nofun ⟨?_, ?_, ?_⟩
    · exact baselineOf?_commit rfl (ht.tentative.trans hv)
    · exact tentativeOf?_settled (.inr (.inl rfl))
    · exact breakStateOf?_cons.trans ht.inBreak
  | @discards s version hs hv =>
    have ht := h.tells hs
    refine logged_put h hs rfl nofun nofun ⟨?_, ?_, ?_⟩
    · exact (baselineOf?_cons rfl (by nofun)).trans ht.baseline
    · exact tentativeOf?_settled (.inr (.inr rfl))
    · exact breakStateOf?_cons.trans ht.inBreak

theorem Logged.exists_session (h : Logged log engine) (ho : OpenIn id log) :
    ∃ s, s.id = id ∧ engine.session? s.id = some s := by
  obtain ⟨s, hs⟩ := Option.isSome_iff_exists.mp ((h.opens id).mpr ho)
  obtain rfl := id_of_session? hs
  exact ⟨s, rfl, hs⟩

theorem logged_serveAll (marker : String) (rs : List EngineRequest) :
    Logged ((new marker).serveAll rs).1 ((new marker).serveAll rs).2 := by
  induction rs using List.reverseRecOn with
  | nil => exact logged_new marker
  | append_singleton rs r ih =>
    rw [serveAll, List.foldl_concat]
    exact logged_serves ih (serve_serves _ r)

/-- The sessions of an engine are apart from each other, and each is as the log has it. -/
structure KeepsSessions (log : List Served) (engine : ChecksumEngine) : Prop where
  opens (id : EngineSessionId) : (engine.session? id).isSome ↔ OpenIn id log
  /-- A request changes no session but its own. -/
  apart {r : EngineRequest} {id : EngineSessionId} (hr : r.session? ≠ some id)
    (ho : (engine.serve r).1 ≠ .opened id) : (engine.serve r).2.session? id = engine.session? id
  fresh {baseline : Snapshot} {reportDiagnostics : Bool} {id : EngineSessionId}
    (h : (engine.serve (.start baseline reportDiagnostics)).1 = .opened id) :
    ∀ e ∈ log, e.starts? id = none
  unknown {r : EngineRequest} {id : EngineSessionId} (hr : r.session? = some id) :
    (engine.serve r).1 = .refused (.unknownSession id) ↔ ¬OpenIn id log
  refused {r : EngineRequest} {error : EngineError} (h : (engine.serve r).1 = .refused error) :
    (engine.serve r).2 = engine
  /-- A commit or a discard needs an update that was ready, and not yet settled. -/
  settles {r : EngineRequest} {id : EngineSessionId} (hr : r = .commit id ∨ r = .discard id)
    (ho : OpenIn id log) : (engine.serve r).1 =
      if (tentativeOf? id log).isSome then .done else .refused (.noPendingUpdate id)
  unready {id : EngineSessionId} {baseline target : Snapshot} {u : Update}
    (h : (engine.serve (.compute id baseline target)).1 = .update u) (hu : u.status ≠ .ready) :
    (engine.serve (.compute id baseline target)).2 = engine
  baseline {id : EngineSessionId} (ho : OpenIn id log) :
    engine.baselineVersion? id = baselineOf? id log
  breakState {id : EngineSessionId} (ho : OpenIn id log) :
    engine.breakState? id = breakStateOf? id log

/-- Whatever it is asked for, an engine keeps its sessions by its log. -/
theorem sessions_follow_log (marker : String) (rs : List EngineRequest) :
    KeepsSessions ((new marker).serveAll rs).1 ((new marker).serveAll rs).2 := by
  have h := logged_serveAll marker rs
  generalize ((new marker).serveAll rs).1 = log at h ⊢
  generalize ((new marker).serveAll rs).2 = engine at h ⊢
  have serves (r : EngineRequest) := serve_serves engine r
  constructor
  case opens => exact h.opens
  case apart =>
    intro r id
    exact (serves r).apart (h.session?_eq_none (Nat.lt_succ_self _))
  case fresh =>
    rintro baseline reportDiagnostics id ⟨⟩ e he
    exact (h.silent (Nat.lt_succ_self _) e he).starts
  case unknown =>
    intro r id hr
    rw [(serves r).unknown_iff hr, ← h.opens, Option.not_isSome_iff_eq_none]
  case refused =>
    intro r error
    exact (serves r).refused
  case settles =>
    intro r id hr ho
    obtain ⟨s, rfl, hs⟩ := h.exists_session ho
    rw [serve_settles hs hr, (h.tells hs).tentative]
  case unready =>
    intro id baseline target u
    exact (serves _).unready
  case baseline =>
    intro id ho
    obtain ⟨s, rfl, hs⟩ := h.exists_session ho
    rw [baselineVersion?, hs, (h.tells hs).baseline]
    rfl
  case breakState =>
    intro id ho
    obtain ⟨s, rfl, hs⟩ := h.exists_session ho
    rw [breakState?, hs, (h.tells hs).inBreak]
    rfl

end ChecksumEngine

end LiveEdit
