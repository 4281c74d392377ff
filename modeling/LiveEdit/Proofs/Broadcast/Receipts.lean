import LiveEdit.Broadcast
import LiveEdit.Session.Event
import Mathlib.Data.List.Forall2
import Mathlib.Data.List.Induction

/-!
Each message that is sent to a receiver is handed over, missed or queued. It is missed without a
word if the receiver does not wait for it.
-/
namespace LiveEdit

variable {α : Type}

/-- All that a receiver is told if it does not wait. -/
def Received.message? : Received α → Option α
  | .message m => some m
  | _ => none

namespace Channel

/-- A channel that keeps so many messages, after some were sent. -/
def filled (capacity : Nat) (messages : List α) : Channel α :=
  messages.foldl publish { capacity }

/-- How many messages were dropped before the receiver was told or given anything of them. -/
def missed (c : Channel α) (r : Receiver) : Nat := c.oldest - r.next

/-- What the receiver can still get of the messages that were sent. -/
def queued (c : Channel α) (r : Receiver) : List α := c.kept.drop (r.next - c.oldest)

/-- The channel keeps the last of these messages. -/
structure Holds (c : Channel α) (messages : List α) : Prop where
  kept : c.kept = messages.drop (messages.length - c.capacity)
  sent : c.sent = messages.length

/-- What a receiver gets, by what it missed and what is queued for it. -/
inductive Gives (c : Channel α) (r : Receiver) : Received α → Receiver → Prop
  | lagged (h : 0 < c.missed r) : Gives c r (.lagged (c.missed r)) ⟨r.next + c.missed r⟩
  | message {m : α} (h : c.missed r = 0) (hm : (c.queued r).head? = some m) :
    Gives c r (.message m) ⟨r.next + 1⟩
  | waiting (h : c.missed r = 0) (hq : c.queued r = []) (hopen : c.isOpen = true) :
    Gives c r .waiting r
  | closed (h : c.missed r = 0) (hq : c.queued r = []) (hopen : c.isOpen = false) :
    Gives c r .closed r

end Channel

/-- What is done with a channel and one receiver of it. -/
inductive ChannelUse (α : Type) where
  | publish (m : α)
  | receive
  | receiveNow
  | close

/-- What was done, and what came of it. -/
inductive ChannelTurn (α : Type) where
  | published (m : α)
  | received (answer : Received α)
  /-- The receiver did not wait. It is not told how many messages it missed until then. -/
  | receivedNow (answer : Option α) (missed : Nat)
  | closed
  deriving DecidableEq

/-- The messages that a turn is the last word on: handed over in it, or missed. -/
inductive ChannelTurn.Settles : ChannelTurn α → List α → Prop
  | published (m : α) : Settles (.published m) []
  | closed : Settles .closed []
  | message (m : α) : Settles (.received (.message m)) [m]
  | lagged (lost : List α) : Settles (.received (.lagged lost.length)) lost
  | waiting : Settles (.received .waiting) []
  | over : Settles (.received .closed) []
  | messageNow (m : α) : Settles (.receivedNow (some m) 0) [m]
  | nothingNow (lost : List α) : Settles (.receivedNow none lost.length) lost

/-- The messages sent in these turns. -/
def messagesOf (log : List (ChannelTurn α)) : List α :=
  log.filterMap fun
    | .published m => some m
    | _ => none

/-- A channel, a receiver, and all that was done since it subscribed. -/
structure Reception (α : Type) where
  channel : Channel α
  receiver : Receiver
  log : List (ChannelTurn α) := []

namespace Reception

/-- A receiver subscribes after these messages. -/
def start (capacity : Nat) (past : List α) : Reception α :=
  { channel := .filled capacity past, receiver := (Channel.filled capacity past).subscribe }

def missed (s : Reception α) : Nat := s.channel.missed s.receiver

def queued (s : Reception α) : List α := s.channel.queued s.receiver

def use (s : Reception α) : ChannelUse α → Reception α
  | .publish m => { s with channel := s.channel.publish m, log := s.log ++ [.published m] }
  | .receive =>
    { s with
      receiver := (s.channel.receive s.receiver).2
      log := s.log ++ [.received (s.channel.receive s.receiver).1] }
  | .receiveNow =>
    { s with
      receiver := (s.channel.receiveNow s.receiver).2
      log := s.log ++ [.receivedNow (s.channel.receiveNow s.receiver).1 s.missed] }
  | .close => { s with channel := s.channel.close, log := s.log ++ [.closed] }

def useAll (s : Reception α) (uses : List (ChannelUse α)) : Reception α := uses.foldl use s

/-- No message is lost without a trace in the log, and it is plain what comes next. -/
structure Accounts (s : Reception α) : Prop where
  /-- The turns settle one part of the messages each. What is left was just missed or is queued. -/
  shared : ∃ (parts : List (List α)) (lost : List α),
    List.Forall₂ ChannelTurn.Settles s.log parts ∧ lost.length = s.missed ∧
      messagesOf s.log = parts.flatten ++ lost ++ s.queued
  lagged {count : Nat} : (s.channel.receive s.receiver).1 = .lagged count ↔
    0 < s.missed ∧ count = s.missed
  message {m : α} : (s.channel.receive s.receiver).1 = .message m ↔
    s.missed = 0 ∧ s.queued.head? = some m
  /-- Without waiting there is nothing also where messages are queued, after some were missed. -/
  nothing : (s.channel.receiveNow s.receiver).1 = none ↔ 0 < s.missed ∨ s.queued = []
  messageNow {m : α} : (s.channel.receiveNow s.receiver).1 = some m ↔
    s.missed = 0 ∧ s.queued.head? = some m
  /-- The loss is forgotten with this, and the queue is as it was. -/
  forgotten (h : 0 < s.missed) :
    (s.use .receiveNow).missed = 0 ∧ (s.use .receiveNow).queued = s.queued
  /-- Taking all until there is none leaves nothing, unless messages were missed just before. -/
  drained (h : s.missed = 0) {count : Nat} (hcount : s.queued.length < count) :
    (s.channel.drain count s.receiver).1 = s.queued ∧
      s.channel.queued (s.channel.drain count s.receiver).2 = []
  undrained (h : 0 < s.missed) (count : Nat) : (s.channel.drain count s.receiver).1 = [] ∧
    s.channel.queued (s.channel.drain count s.receiver).2 = s.queued

end Reception

namespace Channel

variable {c : Channel α} {r next : Receiver} {answer : Received α} {messages : List α} {m : α}

theorem receive_gives (c : Channel α) (r : Receiver) :
    c.Gives r (c.receive r).1 (c.receive r).2 := by
  rw [receive]
  split
  next h =>
    have hmissed : 0 < c.missed r := Nat.sub_pos_of_lt h
    have holdest : c.oldest = r.next + c.missed r := (Nat.add_sub_cancel' (Nat.le_of_lt h)).symm
    rw [show c.oldest - r.next = c.missed r from rfl, holdest]
    exact .lagged hmissed
  next h =>
    have hmissed : c.missed r = 0 := Nat.sub_eq_zero_of_le (Nat.not_lt.mp h)
    split
    next m hm => exact .message hmissed (by rwa [queued, List.head?_drop])
    next hm =>
      have hqueued : c.queued r = [] := List.drop_eq_nil_of_le (List.getElem?_eq_none_iff.mp hm)
      split
      next hopen => exact .waiting hmissed hqueued hopen
      next hopen => exact .closed hmissed hqueued (Bool.eq_false_iff.mpr hopen)

theorem Gives.answer_lagged {count : Nat} (h : c.Gives r answer next) :
    answer = .lagged count ↔ 0 < c.missed r ∧ count = c.missed r := by
  cases h with
  | lagged h => simp [h, eq_comm]
  | message h | waiting h | closed h => simp [h]

theorem Gives.answer_message (h : c.Gives r answer next) :
    answer = .message m ↔ c.missed r = 0 ∧ (c.queued r).head? = some m := by
  cases h with
  | lagged h => simp [Nat.ne_of_gt h]
  | message h hm => simp [h, hm]
  | waiting h hq | closed h hq => simp [h, hq]

theorem queued_succ {rest : List α} (h : c.missed r = 0) (hq : c.queued r = m :: rest) :
    c.missed ⟨r.next + 1⟩ = 0 ∧ c.queued ⟨r.next + 1⟩ = rest := by
  have hle : c.oldest ≤ r.next := Nat.sub_eq_zero_iff_le.mp h
  refine ⟨Nat.sub_eq_zero_of_le (Nat.le_succ_of_le hle), ?_⟩
  rw [queued, Nat.succ_sub hle, ← Nat.add_one, ← List.drop_drop]
  exact congrArg (List.drop 1) hq

theorem queued_oldest (h : 0 < c.missed r) :
    c.missed ⟨r.next + c.missed r⟩ = 0 ∧ c.queued ⟨r.next + c.missed r⟩ = c.queued r := by
  have hle : r.next ≤ c.oldest := Nat.le_of_lt (Nat.lt_of_sub_pos h)
  have hnext : r.next + c.missed r = c.oldest := Nat.add_sub_cancel' hle
  rw [hnext, missed, queued, queued, Nat.sub_self, Nat.sub_eq_zero_of_le hle]
  exact ⟨rfl, rfl⟩

/--
What comes of asking, with or without waiting, is the last word on what it passes over. Nothing is
missed after that.
-/
theorem Gives.settles {lost : List α} (h : c.Gives r answer next)
    (hlost : lost.length = c.missed r) :
    ∃ part, lost ++ c.queued r = part ++ c.queued next ∧ c.missed next = 0 ∧
      next.next = r.next + part.length ∧ (ChannelTurn.received answer).Settles part ∧
        (ChannelTurn.receivedNow answer.message? (c.missed r)).Settles part := by
  have hnone (h : c.missed r = 0) : lost = [] := List.length_eq_zero_iff.mp (hlost.trans h)
  cases h with
  | lagged h =>
    obtain ⟨hmissed, hqueued⟩ := queued_oldest h
    refine ⟨lost, by rw [hqueued], hmissed, congrArg (r.next + ·) hlost.symm, ?_, ?_⟩
    · rw [← hlost]
      exact .lagged lost
    · rw [← hlost]
      exact .nothingNow lost
  | @message m h hm =>
    obtain ⟨rest, hrest⟩ := List.head?_eq_some_iff.mp hm
    obtain ⟨hmissed, hqueued⟩ := queued_succ h hrest
    refine ⟨[m], ?_, hmissed, rfl, .message m, ?_⟩
    · rw [hnone h, hrest, hqueued, List.nil_append, List.singleton_append]
    · rw [h]
      exact .messageNow m
  | waiting h =>
    refine ⟨[], by rw [hnone h], h, rfl, .waiting, ?_⟩
    rw [h]
    exact .nothingNow []
  | closed h =>
    refine ⟨[], by rw [hnone h], h, rfl, .over, ?_⟩
    rw [h]
    exact .nothingNow []

/-- Who does not wait gets the same, but is not told why there is nothing. -/
theorem receiveNow_eq (c : Channel α) (r : Receiver) :
    c.receiveNow r = ((c.receive r).1.message?, (c.receive r).2) := by
  rw [receiveNow]
  obtain ⟨answer, next⟩ := c.receive r
  cases answer <;> rfl

theorem receiveNow_eq_some : (c.receiveNow r).1 = some m ↔ (c.receive r).1 = .message m := by
  rw [receiveNow_eq]
  cases (c.receive r).1 <;> simp [Received.message?]

theorem receiveNow_eq_none :
    (c.receiveNow r).1 = none ↔ 0 < c.missed r ∨ c.queued r = [] := by
  have hgives := c.receive_gives r
  rw [receiveNow_eq]
  generalize (c.receive r).1 = answer, (c.receive r).2 = next at hgives
  cases hgives with
  | lagged h => simp [Received.message?, h]
  | message h hm =>
    have hqueued : c.queued r ≠ [] := List.ne_nil_of_mem (List.mem_of_mem_head? hm)
    simp [Received.message?, h, hqueued]
  | waiting _ hq | closed _ hq => simp [Received.message?, hq]

theorem drain_of_none (h : (c.receiveNow r).1 = none) (count : Nat) :
    c.drain (count + 1) r = ([], (c.receive r).2) := by
  have hnow : c.receiveNow r = (none, (c.receive r).2) := Prod.ext h (by rw [receiveNow_eq])
  rw [drain, hnow]

theorem drain_of_some (h : (c.receiveNow r).1 = some m) (count : Nat) :
    c.drain (count + 1) r =
      (m :: (c.drain count (c.receive r).2).1, (c.drain count (c.receive r).2).2) := by
  have hnow : c.receiveNow r = (some m, (c.receive r).2) := Prod.ext h (by rw [receiveNow_eq])
  rw [drain, hnow]

theorem receive_of_missed (h : 0 < c.missed r) : (c.receive r).2 = ⟨r.next + c.missed r⟩ := by
  have hgives := c.receive_gives r
  generalize (c.receive r).1 = answer, (c.receive r).2 = next at hgives
  cases hgives with
  | lagged => rfl
  | message h' | waiting h' | closed h' => exact absurd h' (Nat.ne_of_gt h)

/-- After a loss there is nothing to take, and all stays where it is. -/
theorem drain_of_missed (h : 0 < c.missed r) (count : Nat) :
    (c.drain count r).1 = [] ∧ c.queued (c.drain count r).2 = c.queued r := by
  cases count with
  | zero => exact ⟨rfl, rfl⟩
  | succ count =>
    rw [drain_of_none (receiveNow_eq_none.mpr (.inl h)), receive_of_missed h]
    exact ⟨rfl, (queued_oldest h).2⟩

/-- Without a loss all that is queued is taken, by induction on it. -/
theorem drain_of_queued {ms : List α} (h : c.missed r = 0) (hq : c.queued r = ms) {count : Nat}
    (hcount : ms.length < count) :
    (c.drain count r).1 = ms ∧ c.queued (c.drain count r).2 = [] := by
  induction ms generalizing r count with
  | nil =>
    obtain ⟨count, rfl⟩ := Nat.exists_eq_add_one_of_ne_zero (Nat.ne_of_gt hcount)
    rw [drain_of_none (receiveNow_eq_none.mpr (.inr hq))]
    have hgives := c.receive_gives r
    generalize (c.receive r).1 = answer, (c.receive r).2 = next at hgives
    cases hgives with
    | lagged h' => exact absurd h (Nat.ne_of_gt h')
    | message _ hm => simp [hq] at hm
    | waiting | closed => exact ⟨rfl, hq⟩
  | cons m ms ih =>
    have hpos : 0 < count := Nat.zero_lt_of_lt hcount
    obtain ⟨count, rfl⟩ := Nat.exists_eq_add_one_of_ne_zero (Nat.ne_of_gt hpos)
    have hmessage := (c.receive_gives r).answer_message.mpr ⟨h, by rw [hq, List.head?_cons]⟩
    rw [drain_of_some (receiveNow_eq_some.mpr hmessage)]
    have hgives := c.receive_gives r
    rw [hmessage] at hgives
    generalize (c.receive r).2 = next at hgives
    cases hgives with
    | message =>
      obtain ⟨hmissed, hqueued⟩ := queued_succ h hq
      obtain ⟨hall, hnone⟩ := ih hmissed hqueued (Nat.lt_of_succ_lt_succ hcount)
      exact ⟨congrArg (m :: ·) hall, hnone⟩

theorem Holds.oldest_eq (h : c.Holds messages) : c.oldest = messages.length - c.capacity := by
  rw [oldest, h.kept, h.sent, List.length_drop]
  omega

theorem Holds.publish (h : c.Holds messages) (m : α) : (c.publish m).Holds (messages ++ [m]) := by
  have hdrop : c.kept ++ [m] = (messages ++ [m]).drop (messages.length - c.capacity) := by
    rw [h.kept, List.drop_append_of_le_length (Nat.sub_le ..)]
  constructor
  · rw [Channel.publish]
    simp only [hdrop, List.drop_drop, List.length_drop, List.length_append, List.length_singleton]
    congr 1
    omega
  · rw [List.length_append]
    exact congrArg (· + 1) h.sent

theorem filled_concat (capacity : Nat) (messages : List α) (m : α) :
    filled capacity (messages ++ [m]) = (filled capacity messages).publish m :=
  List.foldl_concat ..

theorem filled_holds (capacity : Nat) (messages : List α) :
    (filled capacity messages).capacity = capacity ∧ (filled capacity messages).Holds messages := by
  induction messages using List.reverseRecOn with
  | nil => exact ⟨rfl, by rw [List.drop_nil]; rfl, rfl⟩
  | append_singleton messages m ih =>
    rw [filled_concat]
    exact ⟨ih.1, ih.2.publish m⟩

theorem Holds.missed_le (h : c.Holds messages) : c.missed r ≤ (messages.drop r.next).length := by
  rw [missed, h.oldest_eq, List.length_drop]
  omega

theorem Holds.queued_eq (h : c.Holds messages) :
    c.queued r = (messages.drop r.next).drop (c.missed r) := by
  rw [queued, missed, h.kept, ← h.oldest_eq, List.drop_drop, List.drop_drop]
  congr 1
  omega

end Channel

theorem messagesOf_concat (log : List (ChannelTurn α)) (turn : ChannelTurn α) :
    messagesOf (log ++ [turn]) = messagesOf log ++ messagesOf [turn] := List.filterMap_append

namespace Reception

/-- The receiver goes on after the messages that its turns settled. -/
structure Tracks (past : List α) (s : Reception α) : Prop where
  holds : s.channel.Holds (past ++ messagesOf s.log)
  settled : ∃ (parts : List (List α)) (rest : List α),
    List.Forall₂ ChannelTurn.Settles s.log parts ∧ messagesOf s.log = parts.flatten ++ rest ∧
      s.receiver.next = past.length + parts.flatten.length

variable {s : Reception α} {past : List α} {next : Receiver}

theorem tracks_start (capacity : Nat) (past : List α) : (start capacity past).Tracks past := by
  have hholds := (Channel.filled_holds capacity past).2
  refine ⟨by simpa [start, messagesOf] using hholds, [], [], .nil, rfl, ?_⟩
  simpa [start, Channel.subscribe] using hholds.sent

/-- What a receiver has not yet gone past is missed or queued. -/
theorem Tracks.split (h : s.Tracks past) : ∃ (parts : List (List α)) (lost : List α),
    List.Forall₂ ChannelTurn.Settles s.log parts ∧ lost.length = s.missed ∧
      messagesOf s.log = parts.flatten ++ lost ++ s.queued ∧
      s.receiver.next = past.length + parts.flatten.length := by
  obtain ⟨hholds, parts, rest, hparts, hmessages, hread⟩ := h
  have hrest : (past ++ messagesOf s.log).drop s.receiver.next = rest := by
    rw [hmessages, hread, ← List.append_assoc, ← List.length_append, List.drop_left]
  have hlength := hholds.missed_le (r := s.receiver)
  have hqueued := hholds.queued_eq (r := s.receiver)
  rw [hrest] at hlength hqueued
  refine ⟨parts, rest.take s.missed, hparts, List.length_take_of_le hlength, ?_, hread⟩
  rw [hmessages, queued, hqueued, List.append_assoc, missed, List.take_append_drop]

theorem Tracks.publish (h : s.Tracks past) (m : α) : (s.use (.publish m)).Tracks past := by
  obtain ⟨hholds, parts, rest, hparts, hmessages, hread⟩ := h
  have hlog : messagesOf (s.log ++ [.published m]) = messagesOf s.log ++ [m] :=
    messagesOf_concat ..
  refine ⟨?_, parts ++ [[]], rest ++ [m], ?_, ?_, ?_⟩
  · simpa [use, hlog] using hholds.publish m
  · exact List.rel_append hparts (.cons (.published m) .nil)
  · simp [use, hlog, hmessages]
  · simpa [use] using hread

/-- A turn that settles the next messages takes the receiver past them. -/
theorem Tracks.settle {turn : ChannelTurn α} {part rest : List α} {parts : List (List α)}
    (h : s.Tracks past) (hturn : messagesOf [turn] = []) (hsettles : turn.Settles part)
    (hparts : List.Forall₂ ChannelTurn.Settles s.log parts)
    (hmessages : messagesOf s.log = parts.flatten ++ (part ++ rest))
    (hread : s.receiver.next = past.length + parts.flatten.length)
    (hnext : next.next = s.receiver.next + part.length) :
    Tracks past { s with receiver := next, log := s.log ++ [turn] } := by
  have hlog : messagesOf (s.log ++ [turn]) = messagesOf s.log := by
    rw [messagesOf_concat, hturn, List.append_nil]
  refine ⟨?_, parts ++ [part], rest, ?_, ?_, ?_⟩
  · simpa only [hlog] using h.holds
  · exact List.rel_append hparts (.cons hsettles .nil)
  · simp [hlog, hmessages]
  · simp [hnext, hread, Nat.add_assoc]

theorem tracks_use (h : s.Tracks past) (u : ChannelUse α) : (s.use u).Tracks past := by
  obtain ⟨parts, lost, hparts, hlost, hmessages, hread⟩ := h.split
  rw [List.append_assoc] at hmessages
  obtain ⟨part, hpart, -, hnext, hsettles, hsettlesNow⟩ :=
    (s.channel.receive_gives s.receiver).settles hlost
  cases u with
  | publish m => exact h.publish m
  | close =>
    have hclosed := h.settle rfl .closed hparts hmessages hread rfl
    exact ⟨⟨hclosed.holds.kept, hclosed.holds.sent⟩, hclosed.settled⟩
  | receive => exact h.settle rfl hsettles hparts (hpart ▸ hmessages) hread hnext
  | receiveNow =>
    rw [use, Channel.receiveNow_eq]
    exact h.settle rfl hsettlesNow hparts (hpart ▸ hmessages) hread hnext

theorem tracks_useAll (capacity : Nat) (past : List α) (uses : List (ChannelUse α)) :
    ((start capacity past).useAll uses).Tracks past :=
  List.foldlRecOn uses use (tracks_start capacity past) fun _ h u _ => tracks_use h u

/--
Whatever is done, every message sent since the receiver subscribed is settled by one of its turns,
or was just missed, or is queued for it.
-/
theorem messages_are_accounted_for (capacity : Nat) (past : List α) (uses : List (ChannelUse α)) :
    ((start capacity past).useAll uses).Accounts := by
  have htracks := tracks_useAll capacity past uses
  generalize (start capacity past).useAll uses = s at htracks
  have hgives := s.channel.receive_gives s.receiver
  have hmessage {m : α} := hgives.answer_message (m := m)
  constructor
  case shared =>
    obtain ⟨parts, lost, hparts, hlost, hmessages, -⟩ := htracks.split
    exact ⟨parts, lost, hparts, hlost, hmessages⟩
  case lagged => exact hgives.answer_lagged
  case message => exact hmessage
  case nothing => exact Channel.receiveNow_eq_none
  case messageNow => exact Channel.receiveNow_eq_some.trans hmessage
  case forgotten =>
    intro h
    rw [missed, queued, use, Channel.receiveNow_eq, Channel.receive_of_missed h]
    exact Channel.queued_oldest h
  case drained => exact fun h _ hcount => Channel.drain_of_queued h rfl hcount
  case undrained => exact fun h count => Channel.drain_of_missed h count

theorem useAll_publish (capacity : Nat) (messages : List α) :
    (start capacity []).useAll (messages.map .publish) =
      ⟨.filled capacity messages, ⟨0⟩, messages.map .published⟩ := by
  induction messages using List.reverseRecOn with
  | nil => rfl
  | append_singleton messages m ih =>
    rw [useAll] at ih ⊢
    rw [List.map_append, List.foldl_append, ih, Channel.filled_concat, List.map_append]
    rfl

/-- One message more than are kept: who does not wait gets nothing, and the first one is lost. -/
theorem receiveNow_of_overflow {capacity : Nat} {messages : List α}
    (hlength : messages.length = capacity + 1) :
    ((start capacity []).useAll (messages.map .publish)).queued = messages.tail ∧
      (((start capacity []).useAll (messages.map .publish)).use .receiveNow).log =
        messages.map .published ++ [.receivedNow none 1] ∧
      (((start capacity []).useAll (messages.map .publish)).use .receiveNow).missed = 0 ∧
      (((start capacity []).useAll (messages.map .publish)).use .receiveNow).queued =
        messages.tail := by
  obtain ⟨hcapacity, hholds⟩ := Channel.filled_holds capacity messages
  rw [useAll_publish]
  generalize Channel.filled capacity messages = c at hcapacity hholds
  have hmissed : c.missed ⟨0⟩ = 1 := by
    rw [Channel.missed, hholds.oldest_eq, hcapacity, hlength, Nat.add_sub_cancel_left, Nat.sub_zero]
  have hqueued : c.queued ⟨0⟩ = messages.tail := by
    rw [hholds.queued_eq, hmissed, List.drop_zero, List.drop_one]
  have hpos : 0 < c.missed ⟨0⟩ := hmissed ▸ Nat.one_pos
  have hanswer : (c.receiveNow ⟨0⟩).1 = none := Channel.receiveNow_eq_none.mpr (.inl hpos)
  have hafter := Channel.queued_oldest hpos
  rw [← Channel.receive_of_missed hpos] at hafter
  rw [use, missed, hanswer, hmissed, Channel.receiveNow_eq]
  exact ⟨hqueued, rfl, hafter.1, hafter.2.trans hqueued⟩

/--
One event more than are kept. A receiver that does not wait gets nothing, though all but the first
are queued for it, and nothing is left that would tell it of the first one.
-/
theorem lag_goes_untold :
    let events := (List.range 257).map SessionEvent.committed
    let full := (start eventCapacity []).useAll (events.map .publish)
    let asked := full.use .receiveNow
    full.queued = events.tail ∧ asked.log = events.map .published ++ [.receivedNow none 1] ∧
      asked.missed = 0 ∧ asked.queued = events.tail := by
  intro events full asked
  have hlength : events.length = eventCapacity + 1 := by
    rw [List.length_map, List.length_range, eventCapacity]
  exact receiveNow_of_overflow hlength

end Reception

end LiveEdit
