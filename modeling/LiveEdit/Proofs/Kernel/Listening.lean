import LiveEdit.Proofs.Kernel.Visit
import LiveEdit.Proofs.Session.Notices
import LiveEdit.Session.Bridge

/-! Of the notifications that it is sent, a listener passes on the first ones, each once. -/
namespace LiveEdit

/-- What a notification says of the process. -/
def BridgeEvent.inBreak? : BridgeEvent → Option Bool
  | .breakEntered => some true
  | .breakExited => some false
  | .capabilitiesChanged => none

theorem BridgeEvent.break?_request (e : BridgeEvent) : e.request.break? = some e.inBreak? := by
  cases e <;> rfl

/-- How a listener goes on with the reply to a notification. -/
def afterReply (handled : Nat) (events : List BridgeEvent) : Reply → Client Nat
  | .cancelled => .done handled
  | _ => listen (handled + 1) events

/-- A listener is done with all events, or asks for its token before the next one. -/
theorem listen_drop (events : List BridgeEvent) (k : Nat) :
    events.length ≤ k ∧ listen k (events.drop k) = .done k ∨
    ∃ e, events[k]? = some e ∧ listen k (events.drop k) = .poll fun fired =>
      if fired then .done k else .ask e.request (afterReply k (events.drop (k + 1))) := by
  cases hd : events.drop k with
  | nil => exact .inl ⟨List.drop_eq_nil_iff.mp hd, rfl⟩
  | cons e rest =>
    have he : events[k]? = some e := by rw [← List.head?_drop, hd, List.head?_cons]
    have hrest : events.drop (k + 1) = rest := by rw [← List.tail_drop, hd, List.tail_cons]
    exact .inr ⟨e, he, by rw [hrest]; rfl⟩

namespace Kernel

/-- The first `k` events were passed on, each once and in order, before the `rest` of the ends. -/
structure Passed (events : List BridgeEvent) (k : Nat) (hs : List Happening) (own : List Nat)
    (sys : System) (rest : List Completion) : Prop where
  le : k ≤ events.length
  ended {i : Nat} (hi : i ∈ own) : ∃ t, sys.task? i = some t ∧ t.position.IsOver
  asked : own.length = k + rest.length
  ends : ∃ passed, endsOf own hs = passed ++ rest ∧
    passed.map (·.request) = (events.take k).map BridgeEvent.request ∧
    ∀ c ∈ passed, c.reply = .done

variable {events : List BridgeEvent} {k i : Nat} {hs hs' : List Happening} {own : List Nat}
  {sys sys' : System} {rest : List Completion} {e : BridgeEvent}

theorem passed_nil (events : List BridgeEvent) (sys : System) : Passed events 0 [] [] sys [] where
  le := Nat.zero_le _
  ended hi := absurd hi List.not_mem_nil
  asked := rfl
  ends := ⟨[], rfl, by simp, by simp⟩

theorem Passed.silent (h : Passed events k hs own sys rest) (hrun : sys.Run hs' sys') :
    ∀ i ∈ own, ∀ c, .replied i c ∉ hs' := by
  intro i hi c hc
  obtain ⟨t, ht, ho⟩ := h.ended hi
  exact hrun.silent ht ho _ hc rfl

/-- Nothing more happens to the events that were passed on. -/
theorem Passed.stays (h : Passed events k hs own sys rest) (hrun : sys.Run hs' sys') :
    Passed events k (hs ++ hs') own sys' rest where
  le := h.le
  ended hi := by
    obtain ⟨t, ht, ho⟩ := h.ended hi
    obtain ⟨t', ht', hgo⟩ := hrun.goesOn ht
    exact ⟨t', ht', hgo.stays ho ▸ ho⟩
  asked := h.asked
  ends := by
    rw [endsOf_append, endsOf_eq_nil (h.silent hrun), List.append_nil]
    exact h.ends

/-- The end of the next event's request comes after all the others. -/
theorem Passed.next {t : Task} {reply : Reply} (h : Passed events k hs own sys [])
    (ht : sys.task? i = some t) (hw : t.position = .waiting) (hi : i ∉ own)
    (hnew : ∀ c, .replied i c ∉ hs) (hrun : sys.Run hs' sys') (hr : sys'.reply? i = some reply) :
    ∃ c, endsOf (own ++ [i]) (hs ++ hs') = endsOf own hs ++ [c] ∧ .replied i c ∈ hs' ∧
      c.request = t.request ∧ c.reply = reply := by
  have hnone : sys.reply? i = none := by
    cases hr' : sys.reply? i with
    | none => rfl
    | some reply' => cases hw.symm.trans ((System.reply?_eq_some_iff ht).mp hr')
  rcases hrun.ends ht hnone with ⟨-, hr'⟩ | ⟨c, hone, hr', hc⟩
  · cases hr.symm.trans hr'
  · have hearlier : endsOf (own ++ [i]) hs = endsOf own hs := by
      refine endsOf_congr fun j c hj => ?_
      have hji : j ≠ i := by
        rintro rfl
        exact hnew c hj
      simp [hji]
    have hlater : endsOf (own ++ [i]) hs' = endsOf [i] hs' := by
      refine endsOf_congr fun j c hj => ?_
      have hjo : j ∉ own := fun hjo => h.silent hrun j hjo c hj
      simp [hjo]
    obtain ⟨j, hj, hmem⟩ := mem_endsOf.mp (hone ▸ List.mem_singleton_self c)
    obtain rfl := List.mem_singleton.mp hj
    refine ⟨c, by rw [endsOf_append, hearlier, hlater, hone], hmem, hc, ?_⟩
    exact Option.some.inj (hr'.symm.trans hr)

/-- The end of the next event, when it was called off. -/
def CalledOff (events : List BridgeEvent) (k : Nat) (rest : List Completion) : Prop :=
  ∃ e c, events[k]? = some e ∧ rest = [c] ∧ c.request = e.request ∧ c.reply = .cancelled

/-- Where a listener stands, and what it has done by then. -/
inductive Listens (events : List BridgeEvent) (hs : List Happening) (own : List Nat)
    (sys : System) (st : Stand Nat) : Prop
  | goesOn {fired : Bool} {k : Nat} (hst : st = .free fired (listen k (events.drop k)))
      (hp : Passed events k hs own sys [])
  | asks {fired : Bool} {k : Nat} {e : BridgeEvent} (he : events[k]? = some e)
      (hst : st = .free fired (.ask e.request (afterReply k (events.drop (k + 1)))))
      (hp : Passed events k hs own sys [])
  /-- It waits for the reply to the next event, since its task was issued to `before`. -/
  | waits {k i : Nat} {e : BridgeEvent} {fired : Bool} {earlier later : List Happening}
      {ended : List Nat} {before : System} (he : events[k]? = some e)
      (hst : st = .waits i (afterReply k (events.drop (k + 1))))
      (hlog : hs = earlier ++ later) (hown : own = ended ++ [i])
      (hp : Passed events k earlier ended before [])
      (ht : before.task? i = some ⟨e.request, fired, .waiting⟩) (hi : i ∉ ended)
      (hnew : ∀ c, .replied i c ∉ earlier) (hrun : before.Run later sys)
  | stops {k : Nat} {rest : List Completion} (hst : st = .free true (.done k))
      (hp : Passed events k hs own sys rest) (hr : rest = [] ∨ CalledOff events k rest)

variable {st : Stand Nat}

theorem Listens.others (h : Listens events hs own sys st) (hrun : sys.Run hs' sys') :
    Listens events (hs ++ hs') own sys' st := by
  cases h with
  | goesOn hst hp => exact .goesOn hst (hp.stays hrun)
  | asks he hst hp => exact .asks he hst (hp.stays hrun)
  | waits he hst hlog hown hp ht hi hnew hrun' =>
    subst hlog
    exact .waits he hst (List.append_assoc _ _ _) hown hp ht hi hnew (hrun'.trans hrun)
  | stops hst hp hr => exact .stops hst (hp.stays hrun) hr

theorem Listens.fires {fired : Bool} {client : Client Nat}
    (h : Listens events hs own sys (.free fired client)) :
    Listens events hs own sys (.free true client) := by
  cases h with
  | goesOn hst hp =>
    cases hst
    exact .goesOn rfl hp
  | asks he hst hp =>
    cases hst
    exact .asks he rfl hp
  | waits _ hst => cases hst
  | stops hst hp hr =>
    cases hst
    exact .stops rfl hp hr

/-- A listener is done, asks for its token, or makes a request. -/
def AsksOnly : Client Nat → Prop
  | .done _ | .poll _ | .ask _ _ => True
  | _ => False

theorem Listens.asksOnly {fired : Bool} {client : Client Nat}
    (h : Listens events hs own sys (.free fired client)) : AsksOnly client := by
  cases h with
  | @goesOn fired' k hst =>
    cases hst
    rcases listen_drop events k with ⟨-, hl⟩ | ⟨e, -, hl⟩
    · exact hl ▸ trivial
    · exact hl ▸ trivial
  | asks _ hst =>
    cases hst
    trivial
  | waits _ hst => cases hst
  | stops hst =>
    cases hst
    trivial

/-- A listener asks whether its token has fired, and then passes on the next event. -/
theorem Listens.polls {fired : Bool} {next : Bool → Client Nat}
    (h : Listens events hs own sys (.free fired (.poll next))) :
    Listens events hs own sys (.free fired (next fired)) := by
  cases h with
  | @goesOn fired' k hst hp =>
    rcases listen_drop events k with ⟨-, hl⟩ | ⟨e, he, hl⟩
    · rw [hl] at hst
      cases hst
    · rw [hl] at hst
      cases hst
      cases fired with
      | true => exact .stops rfl hp (.inl rfl)
      | false => exact .asks he rfl hp
  | asks _ hst => cases hst
  | waits _ hst => cases hst
  | stops hst => cases hst

/-- The next event is passed on by a new task. -/
theorem Listens.issues {fired : Bool} {r : Request} {next : Reply → Client Nat} {start : System}
    (h : Listens events hs own sys (.free fired (.ask r next))) (hrun : start.Run hs sys) :
    Listens events hs (own ++ [sys.tasks.length]) (sys.issue r fired)
      (.waits sys.tasks.length next) := by
  have hnew (c : Completion) : .replied sys.tasks.length c ∉ hs := by
    intro hc
    obtain ⟨t, ht, -⟩ := hrun.shows _ hc
    exact absurd (System.task?_lt ht) (Nat.lt_irrefl _)
  cases h with
  | @goesOn fired' k hst hp =>
    rcases listen_drop events k with ⟨-, hl⟩ | ⟨e, -, hl⟩
    · rw [hl] at hst
      cases hst
    · rw [hl] at hst
      cases hst
  | @asks fired' k e he hst hp =>
    cases hst
    have hissue : sys.Run [] (sys.issue e.request fired) := System.Run.nil.snoc (.issue _ _)
    have hi : sys.tasks.length ∉ own := by
      intro hi
      obtain ⟨t, ht, -⟩ := hp.ended hi
      exact absurd (System.task?_lt ht) (Nat.lt_irrefl _)
    exact .waits he rfl (List.append_nil _).symm rfl (List.append_nil hs ▸ hp.stays hissue)
      (by rw [System.task?_issue, if_pos rfl]) hi hnew .nil
  | waits _ hst => cases hst
  | stops hst => cases hst

/-- The next event was passed on too. -/
theorem Passed.succ {c : Completion} (h : Passed events k hs own sys [c])
    (he : events[k]? = some e) (hc : c.request = e.request) (hr : c.reply = .done) :
    Passed events (k + 1) hs own sys [] where
  le := (List.getElem?_eq_some_iff.mp he).1
  ended := h.ended
  asked := h.asked
  ends := by
    obtain ⟨passed, hends, hrequests, hdone⟩ := h.ends
    refine ⟨passed ++ [c], by rw [hends, List.append_nil], ?_, ?_⟩
    · rw [List.map_append, hrequests, List.take_add_one, he, List.map_append]
      simp [hc]
    · intro x hx
      rcases List.mem_append.mp hx with hx | hx
      · exact hdone x hx
      · exact List.mem_singleton.mp hx ▸ hr

/-- Once it hears the reply, a listener goes on, or stops if it was called off. -/
theorem Listens.hears {origin : System} {pre : List Happening} {next : Reply → Client Nat}
    {reply : Reply} (h : Listens events hs own sys (.waits i next))
    (hrun : origin.Run (pre ++ hs) sys) (ho : origin.IsFresh) (hr : sys.reply? i = some reply) :
    Listens events hs own sys (.free (sys.hasFired i) (next reply)) := by
  cases h with
  | goesOn hst => cases hst
  | asks _ hst => cases hst
  | stops hst => cases hst
  | @waits k i' e fired earlier later ended before he hst hlog hown hp ht hi hnew hlater =>
    cases hst
    subst hlog hown
    obtain ⟨c, hends, hmem, hc, rfl⟩ := hp.next ht rfl hi hnew hlater hr
    have hin : .replied i c ∈ pre ++ (earlier ++ later) :=
      List.mem_append_right _ (List.mem_append_right _ hmem)
    have hpassed : Passed events k (earlier ++ later) (ended ++ [i]) sys [c] := by
      refine ⟨hp.le, fun {j} hj => ?_, ?_, ?_⟩
      · rcases List.mem_append.mp hj with hj | hj
        · exact (hp.stays hlater).ended hj
        · obtain rfl := List.mem_singleton.mp hj
          obtain ⟨t, ht', -, hend⟩ := hlater.shows _ hmem
          exact ⟨t, ht', hend ▸ trivial⟩
      · rw [List.length_append, hp.asked]
        rfl
      · obtain ⟨passed, hpassed, hrest⟩ := hp.ends
        exact ⟨passed, by rw [hends, hpassed, List.append_nil], hrest⟩
    have hbreak : c.request.break? = some e.inBreak? := by rw [hc, e.break?_request]
    rcases hrun.reply_of_break ho hin hbreak with hdone | hcancelled
    · rw [hdone]
      exact .goesOn rfl (hpassed.succ he hc hdone)
    · rw [hrun.fired_of_cancelled ho hin hcancelled, hcancelled]
      exact .stops rfl hpassed (.inr ⟨e, c, he, rfl, hc, hcancelled⟩)

variable {origin w u v : OpenWorld} {su sv : Stand Nat} {hs₀ : List Happening} {own' : List Nat}

theorem listens_step (h : Listens events hs own u.system su) (hu : Visit.Step u su hs' own' v sv)
    (hw : w.Run hs u) (h₀ : origin.Run hs₀ w) (ho : origin.IsFresh) :
    Listens events (hs ++ hs') (own ++ own') v.system sv := by
  have idle {hs : List Happening} {own : List Nat} {st : Stand Nat}
      (h : Listens events hs own v.system st) :
      Listens events (hs ++ []) (own ++ []) v.system st := by
    rwa [List.append_nil, List.append_nil]
  cases hu with
  | others hstep =>
    rw [List.append_nil]
    exact h.others (OpenWorld.Run.nil.snoc hstep).system
  | fires => exact idle h.fires
  | asks => exact (List.append_nil hs).symm ▸ h.issues hw.system
  | hears hr => exact idle (h.hears (h₀.trans hw).system ho.system hr)
  | polls => exact idle h.polls
  | looks => exact h.asksOnly.elim
  | rescans => exact h.asksOnly.elim
  | notes => exact h.asksOnly.elim

theorem Visit.listens {fired : Bool} (h : Visit w (.free fired (listen 0 events)) hs own u su)
    (h₀ : origin.Run hs₀ w) (ho : origin.IsFresh) : Listens events hs own u.system su := by
  induction h with
  | nil => exact .goesOn rfl (passed_nil events w.system)
  | snoc h hu ih => exact listens_step ih hu h.run h₀ ho

/-- A listener that has returned passed on all events, or its token has fired. -/
theorem Listens.done {fired : Bool} {n : Nat}
    (h : Listens events hs own sys (.free fired (.done n))) :
    (∃ rest, Passed events n hs own sys rest ∧ (rest = [] ∨ CalledOff events n rest)) ∧
      (fired = false → n = events.length) := by
  cases h with
  | @goesOn fired' k hst hp =>
    rcases listen_drop events k with ⟨hle, hl⟩ | ⟨e, -, hl⟩
    · rw [hl] at hst
      cases hst
      exact ⟨⟨[], hp, .inl rfl⟩, fun _ => Nat.le_antisymm hp.le hle⟩
    · rw [hl] at hst
      cases hst
  | asks _ hst => cases hst
  | waits _ hst => cases hst
  | stops hst hp hr =>
    cases hst
    exact ⟨⟨_, hp, hr⟩, nofun⟩

/-- The end of the event after the first `n`, which was called off and left no trace. -/
def LeftNoTrace (events : List BridgeEvent) (n : Nat) (hs : List Happening) (own : List Nat)
    (c : Completion) : Prop :=
  (∃ e, events[n]? = some e ∧ c.request = e.request) ∧ c.reply = .cancelled ∧
    c.after = c.before ∧ c.effects = [] ∧
    ∃ i ∈ own, .replied i c ∈ hs ∧ ∀ a, .answered i a ∉ hs

/--
The tasks of a listener, and their ends in the log: the first `n` events were each passed on once,
in order, and at most one more was called off.
-/
structure PassesOn (events : List BridgeEvent) (n : Nat) (hs : List Happening) (own : List Nat) :
    Prop where
  le : n ≤ events.length
  asked : own.length = (endsOf own hs).length
  requests : ((endsOf own hs).take n).map (·.request) = (events.take n).map BridgeEvent.request
  done : ∀ c ∈ (endsOf own hs).take n, c.reply = .done
  rest : (endsOf own hs).drop n = [] ∨
    ∃ c, (endsOf own hs).drop n = [c] ∧ LeftNoTrace events n hs own c

/-- A coordinator, its engine and the world were told of `notices`, each once and in order. -/
structure KeepsUp (w v : OpenWorld) (session : ActiveSession) (notices : List (Option Bool)) :
    Prop where
  state : ∃ session', v.system.state = .active session' ∧ session'.engine = session.engine ∧
    session'.breakState = notices.foldl BreakState.apply session.breakState
  engine : v.engine.breakState? session.engine =
    notices.foldl (fun known inBreak => inBreak <|> known) (w.engine.breakState? session.engine)
  told : breakStatesOf v.system.history = breakStatesOf w.system.history ++
    (notices.scanl BreakState.apply session.breakState).tail

/-- Requests come to their ends, but nothing else happens. -/
structure Idles (u v : OpenWorld) (hs : List Happening) (own : List Nat) : Prop where
  state : v.system.state = u.system.state
  engine : v.engine = u.engine
  calls (i : Nat) (call : Call) : .called i call ∉ hs
  told : eventsOf v.system.history = eventsOf u.system.history
  ends : ∀ c ∈ endsOf own hs, c.after = c.before ∧ c.effects = []

theorem Passed.passesOn {n : Nat} (h : Passed events n hs own v.system rest)
    (hr : rest = [] ∨ CalledOff events n rest) (hrun : w.Run hs v) (h₀ : origin.Run hs₀ w)
    (ho : origin.IsFresh) : PassesOn events n hs own := by
  obtain ⟨passed, hends, hrequests, hdone⟩ := h.ends
  have hlength : passed.length = n := by
    have hlen := congrArg List.length hrequests
    simpa [Nat.min_eq_left h.le] using hlen
  have htake : (endsOf own hs).take n = passed := by rw [hends, List.take_left' hlength]
  have hdrop : (endsOf own hs).drop n = rest := by rw [hends, List.drop_left' hlength]
  refine ⟨h.le, ?_, htake ▸ hrequests, htake ▸ hdone, ?_⟩
  · rw [hends, List.length_append, hlength, h.asked]
  · rw [hdrop]
    refine hr.imp_right ?_
    rintro ⟨e, c, he, rfl, hc, hcancelled⟩
    obtain ⟨i, hi, hmem⟩ := mem_endsOf.mp (show c ∈ endsOf own hs by simp [hends])
    have hall := (h₀.trans hrun).system
    have hin : .replied i c ∈ hs₀ ++ hs := List.mem_append_right _ hmem
    have hbreak : c.request.break? = some e.inBreak? := by rw [hc, e.break?_request]
    obtain ⟨hafter, heffects⟩ := hall.traceless ho.system hin hcancelled
    refine ⟨c, rfl, ⟨e, he, hc⟩, hcancelled, hafter, heffects, i, hi, hmem, fun a ha => ?_⟩
    exact hall.unanswered ho.system hin hbreak hcancelled a (List.mem_append_right _ ha)

/-- If all notices come from some tasks, they are what those tasks told. -/
theorem noticesOf_own (h : ∀ e ∈ hs, e.notice?.isSome → e.task ∈ own) :
    noticesOf hs = (endsOf own hs).filterMap fun c => c.request.notice? c.reply := by
  induction hs with
  | nil => rfl
  | cons e hs ih =>
    have hrest := ih fun x hx => h x (List.mem_cons_of_mem _ hx)
    have hhead := h e List.mem_cons_self
    cases e with
    | replied i c =>
      have hnotice : (Happening.replied i c).notice? = c.request.notice? c.reply := rfl
      by_cases hi : i ∈ own
      · have hends : endsOf own (.replied i c :: hs) = c :: endsOf own hs := by simp [endsOf, hi]
        rw [hends, List.filterMap_cons, ← hrest, noticesOf, List.filterMap_cons, hnotice]
        rfl
      · have hends : endsOf own (.replied i c :: hs) = endsOf own hs := by simp [endsOf, hi]
        have hnone : (Happening.replied i c).notice? = none := by
          cases hn : (Happening.replied i c).notice? with
          | none => rfl
          | some inBreak => exact absurd (hhead (by simp [hn])) hi
        rw [hends, ← hrest, noticesOf, List.filterMap_cons, hnone]
        rfl
    | _ => exact hrest

theorem notices_of_done {ends : List Completion} (h : ∀ c ∈ ends, c.reply = .done) :
    ends.filterMap (fun c => c.request.notice? c.reply) =
      (ends.map (·.request)).filterMap Request.break? := by
  induction ends with
  | nil => rfl
  | cons c ends ih =>
    have hrest := ih fun x hx => h x (List.mem_cons_of_mem _ hx)
    have hhead : c.request.notice? c.reply = c.request.break? := if_pos (h c List.mem_cons_self)
    rw [List.filterMap_cons, List.map_cons, List.filterMap_cons, hhead, hrest]

theorem PassesOn.request_of_mem {n : Nat} {c : Completion} (h : PassesOn events n hs own)
    (hc : c ∈ endsOf own hs) : ∃ e : BridgeEvent, c.request = e.request := by
  rw [← List.take_append_drop n (endsOf own hs), List.mem_append] at hc
  rcases hc with hc | hc
  · have hin : c.request ∈ ((endsOf own hs).take n).map (·.request) := List.mem_map_of_mem hc
    rw [h.requests] at hin
    obtain ⟨e, -, he⟩ := List.mem_map.mp hin
    exact ⟨e, he.symm⟩
  · rcases h.rest with hnil | ⟨c', hone, ⟨e, -, he⟩, -⟩
    · rw [hnil] at hc
      cases hc
    · rw [hone] at hc
      cases List.mem_singleton.mp hc
      exact ⟨e, he⟩

/-- What the ends of a listener's tasks told is what the events said that were passed on. -/
theorem PassesOn.notices {n : Nat} (h : PassesOn events n hs own) :
    (endsOf own hs).filterMap (fun c => c.request.notice? c.reply) =
      (events.take n).map BridgeEvent.inBreak? := by
  rw [← List.take_append_drop n (endsOf own hs), List.filterMap_append, notices_of_done h.done,
    h.requests]
  have hrest : ((endsOf own hs).drop n).filterMap (fun c => c.request.notice? c.reply) = [] := by
    rcases h.rest with hnil | ⟨c, hone, -, hcancelled, -⟩
    · rw [hnil, List.filterMap_nil]
    · simp [hone, Request.notice?, hcancelled]
  rw [hrest, List.append_nil, List.filterMap_map, ← List.filterMap_eq_map]
  congr 1
  funext e
  exact e.break?_request

theorem reported?_foldl (notices : List (Option Bool)) (breakState : BreakState) :
    reported? (notices.foldl BreakState.apply breakState) =
      notices.foldl (fun known inBreak => inBreak <|> known) (reported? breakState) := by
  induction notices generalizing breakState with
  | nil => rfl
  | cons inBreak notices ih => rw [List.foldl_cons, ih, reported?_apply, List.foldl_cons]

variable {session : ActiveSession} {n : Nat}

theorem OpenWorld.Run.keepsUp (h : w.Run hs v) (h₀ : origin.Run hs₀ w) (ho : origin.IsFresh)
    (hactive : w.system.state = .active session) (hon : StaysActive hs) :
    KeepsUp w v session (noticesOf hs) := by
  obtain ⟨session', hv, hnote⟩ := h₀.system.takesNote ho.system h.system hactive hon
  refine ⟨⟨session', hv, hnote.engine, hnote.breakState⟩, ?_, ?_⟩
  · rw [h₀.breakState? ho hactive, ← hnote.engine, (h₀.trans h).breakState? ho hv,
      hnote.breakState, reported?_foldl]
  · rw [h.system.accounted.history, breakStatesOf_append, hnote.told]

theorem isApplied_of_endsOf (h : w.Run hs v) (h₀ : origin.Run hs₀ w) (ho : origin.IsFresh)
    (hactive : w.system.state = .active session) (hon : StaysActive hs)
    (hp : PassesOn events n hs own) : ∀ c ∈ (endsOf own hs).take n, c.IsApplied := by
  intro c hc
  obtain ⟨i, -, hmem⟩ := mem_endsOf.mp (List.mem_of_mem_take hc)
  obtain ⟨session', hafter⟩ := hon i c hmem
  obtain ⟨found, hbefore⟩ := h₀.system.found_active ho.system h.system hactive hon hmem
  have hregular := (h₀.trans h).system.regular ho.system (List.mem_append_right _ hmem)
  obtain ⟨e, he⟩ := hp.request_of_mem (List.mem_of_mem_take hc)
  have hbreak : c.request.break? = some e.inBreak? := by rw [he, e.break?_request]
  exact hregular.isApplied hbreak (hp.done c hc) hbefore hafter

/-- Once hot reload is off, requests with the gate come to their ends without any effect. -/
theorem OpenWorld.Run.idles (h : w.Run hs v) (h₀ : origin.Run hs₀ w) (ho : origin.IsFresh)
    (hd : w.system.state.isDisabled = true)
    (hown : ∀ c ∈ endsOf own hs, c.request.takesGate = true) : Idles w v hs own := by
  have hoff {i : Nat} {c : Completion} (hc : .replied i c ∈ hs) (hg : c.request.takesGate = true) :
      c.before = w.system.state ∧ c.after = w.system.state ∧ c.effects = [] := by
    obtain ⟨hb, ha, he, -⟩ := h₀.system.gate_answers_off ho.system hd h.system hc hg
    exact ⟨hb, ha, he⟩
  have htold : eventsOf (toldBy hs) = [] := by
    refine List.eq_nil_iff_forall_not_mem.mpr fun event hevent => ?_
    obtain ⟨effect, hin, heffect⟩ := List.mem_filterMap.mp hevent
    obtain ⟨x, hx, hin⟩ := List.mem_flatMap.mp hin
    cases x with
    | replied i c =>
      have hregular := (h₀.trans h).system.regular ho.system (List.mem_append_right _ hx)
      have hnone : eventsOf c.effects = [] := by
        cases hregular with
        | calledOff _ _ he => rw [he]; rfl
        | checked _ _ he => exact he.eventsOf_eq
        | ended hg => rw [(hoff hx hg).2.2]; rfl
      have hmem : event ∈ eventsOf c.effects := List.mem_filterMap.mpr ⟨effect, hin, heffect⟩
      rw [hnone] at hmem
      cases hmem
    | _ => cases hin
  refine ⟨?_, h₀.engine_stays ho hd h, ?_, ?_, fun c hc => ?_⟩
  · exact h₀.system.stays_disabled ho.system hd h.system
  · exact h₀.system.calls_nothing ho.system hd h.system
  · rw [h.system.accounted.history, eventsOf_append, htold, List.append_nil]
  · obtain ⟨i, -, hmem⟩ := mem_endsOf.mp hc
    obtain ⟨hb, ha, he⟩ := hoff hmem (hown c hc)
    exact ⟨ha.trans hb.symm, he⟩

/--
A listener can always come to its end, unless its task is dropped. By then it has passed on the
first events, each once and in order, and all of them if its token has not fired. A session that
stays active keeps up with the notices: with these, if nobody else sends any. Once hot reload is
off, whatever is left has no effect.
-/
theorem listener_passes_on_first_events {fired₀ : Bool} (ho : origin.IsFresh)
    (h₀ : origin.Run hs₀ w) (h : Visit w (.free fired₀ (listen 0 events)) hs own u su) :
    (Visit.Attended u su → Visit.CanFinish u su) ∧
    ∀ {hs' : List Happening} {own' : List Nat} {v : OpenWorld} {fired : Bool} {n : Nat},
      Visit u su hs' own' v (.free fired (.done n)) →
      PassesOn events n (hs ++ hs') (own ++ own') ∧
      (fired = false → n = events.length) ∧
      (∀ session, w.system.state = .active session → StaysActive (hs ++ hs') →
        (∀ c ∈ (endsOf (own ++ own') (hs ++ hs')).take n, c.IsApplied) ∧
        KeepsUp w v session (noticesOf (hs ++ hs')) ∧
        ((∀ e ∈ hs ++ hs', e.notice?.isSome → e.task ∈ own ++ own') →
          noticesOf (hs ++ hs') = (events.take n).map BridgeEvent.inBreak?)) ∧
      (u.system.state.isDisabled = true → Idles u v hs' (own ++ own')) := by
  have hu : origin.Run (hs₀ ++ hs) u := h₀.trans h.run
  refine ⟨Visit.canFinish su hu ho, fun {hs' own' v fired n} h' => ?_⟩
  have hall := h.trans h'
  obtain ⟨⟨rest, hpassed, hrest⟩, hfired⟩ := (hall.listens h₀ ho).done
  have hpasses := hpassed.passesOn hrest hall.run h₀ ho
  refine ⟨hpasses, hfired, fun session hactive hon => ⟨?_, ?_, fun hsole => ?_⟩, fun hd => ?_⟩
  · exact isApplied_of_endsOf hall.run h₀ ho hactive hon hpasses
  · exact hall.run.keepsUp h₀ ho hactive hon
  · rw [noticesOf_own hsole, hpasses.notices]
  · refine h'.run.idles hu ho hd fun c hc => ?_
    have hmem : c ∈ endsOf (own ++ own') (hs ++ hs') := by
      rw [endsOf_append]
      exact List.mem_append_right _ hc
    obtain ⟨e, he⟩ := hpasses.request_of_mem hmem
    rw [he]
    cases e <;> rfl

theorem listener_is_stopped_at_second_event :
    ∃ hs₀ hs w v session, World.blank.opened.Run hs₀ w ∧ w.system.state = .active session ∧
      Visit w (.free false (listen 0 [.breakEntered, .breakExited])) hs [1, 2] v
        (.free true (.done 1)) ∧
      PassesOn [.breakEntered, .breakExited] 1 hs [1, 2] ∧ KeepsUp w v session [some true] := by
  have blank : World.blank.opened.IsFresh := ⟨⟨rfl, rfl, rfl⟩, rfl, rfl⟩
  obtain ⟨hs₀, started⟩ := World.blank_isFresh.starts rfl
  have opened := started.opened rfl
  let w : OpenWorld := World.blank.started.opened
  let session : ActiveSession := { engine := ⟨1⟩, committed := World.blank.store.current }
  have polled : Visit w (.free false (listen 0 [.breakEntered, .breakExited])) _ _ _ _ :=
    .single .polls
  have asked := polled.snoc .asks
  have admitted := asked.snoc
    (.others (.move (.approach (i := 1) rfl rfl rfl) (by rintro _ _ ⟨⟩)))
  have begun := admitted.snoc
    (.others (.move (.arrive (i := 1) rfl (.turn rfl fun _ => rfl)) (by rintro _ _ ⟨⟩)))
  have worked := begun.snoc
    (.others (.work ⟨.new 0, _⟩ rfl (.arrive (i := 1) rfl (.answer rfl _))))
  have heard := worked.snoc (.hears rfl)
  have waiting := (heard.snoc .polls).snoc .asks
  have fired := waiting.snoc (.others (.move (.fire 2) (by rintro _ _ ⟨⟩)))
  have gaveUp := fired.snoc
    (.others (.move (.approach (i := 2) rfl rfl rfl) (by rintro _ _ ⟨⟩)))
  have stopped := gaveUp.snoc (.hears rfl)
  obtain ⟨hs, v, stopped, hown, hactive⟩ : ∃ hs v,
      Visit w (.free false (listen 0 [.breakEntered, .breakExited])) hs [1, 2] v
        (.free true (.done 1)) ∧
      (hs.all fun e => e.task ∈ [1, 2]) = true ∧
      ((endsOf [1, 2] hs).all fun c => c.after.session?.isSome) = true := by
    refine ⟨_, _, stopped, ?_, ?_⟩
    · rfl
    · rfl
  have arrives : Visit w (.free false (listen 0 [.breakEntered, .breakExited])) [] [] w _ := .nil
  obtain ⟨-, hreturns⟩ := listener_passes_on_first_events blank opened arrives
  obtain ⟨hpasses, -, hsession, -⟩ := hreturns stopped
  have htask : ∀ e ∈ hs, e.task ∈ [1, 2] := by simpa using hown
  obtain ⟨-, hkeeps, hsole⟩ := hsession session rfl fun i c hc => by
    have hsome := List.all_eq_true.mp hactive c (mem_endsOf.mpr ⟨i, htask _ hc, hc⟩)
    cases hafter : c.after with
    | active session' => exact ⟨session', rfl⟩
    | _ => simp [hafter, SessionState.session?] at hsome
  have hnotices := hsole fun e he _ => htask e he
  rw [hnotices] at hkeeps
  exact ⟨hs₀, hs, w, v, session, opened, rfl, stopped, hpasses, hkeeps⟩

end Kernel

end LiveEdit
